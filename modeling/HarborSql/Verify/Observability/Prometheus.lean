import HarborSql.Observability
import HarborSql.Theory.Exposition

/-! What a reader of the Prometheus text finds in it: one sample for each of the observed keys. -/

namespace HarborSql

open Exposition (Sample Renders)

/-! ## Labels -/

def HttpKey.labels (key : HttpKey) : List (String × String) :=
  [("method", key.method), ("route", key.route), ("status", toString key.status)]

def ThriftKey.labels (key : ThriftKey) : List (String × String) :=
  [("method", key.method), ("status", key.status)]

theorem toString_status_inj {a b : UInt16} (h : toString a = toString b) : a = b := by
  have hdigits : Nat.toDigits 10 a.toNat = Nat.toDigits 10 b.toNat := by
    have := congrArg String.toList h
    simpa [toString, Nat.repr] using this
  have hvalue := congrArg (Nat.ofDigitChars 10 · 0) hdigits
  simp only [Nat.ofDigitChars_toDigits (show 1 < 10 by decide) (Nat.le_refl 10)] at hvalue
  exact UInt16.toNat_inj.mp hvalue

theorem HttpKey.labels_injective : Function.Injective HttpKey.labels := by
  intro a b h
  simp only [labels, List.cons.injEq, Prod.mk.injEq, true_and, and_true] at h
  obtain ⟨hmethod, hroute, hstatus⟩ := h
  cases a
  cases b
  simp only [HttpKey.mk.injEq]
  exact ⟨hmethod, hroute, toString_status_inj hstatus⟩

theorem ThriftKey.labels_injective : Function.Injective ThriftKey.labels := by
  intro a b h
  simp only [labels, List.cons.injEq, Prod.mk.injEq, true_and, and_true] at h
  cases a
  cases b
  simpa using h

/-- The three replacements escape every character on its own: none of them meets a character that
an earlier one wrote. -/
theorem toList_escapeLabel (value : String) :
    (escapeLabel value).toList = Exposition.escape value.toList := by
  simp only [escapeLabel, replaceChar, String.toList_ofList, Exposition.escape,
    List.flatMap_assoc]
  apply List.flatMap_congr
  intro c _
  by_cases hslash : c = '\\'
  · subst hslash
    decide
  by_cases hquote : c = '"'
  · subst hquote
    decide
  by_cases hline : c = '\n'
  · subst hline
    decide
  simp [Exposition.escapeChar, hslash, hquote, hline]

theorem isDigit_of_mem_toString {n : Nat} {c : Char} (h : c ∈ (toString n).toList) : c.isDigit :=
  Nat.isDigit_of_mem_toDigits (by decide) (Nat.le_refl 10) (by simpa [toString, Nat.repr] using h)

/-- A number needs no escapes. -/
theorem escape_toString (n : Nat) :
    Exposition.escape (toString n).toList = (toString n).toList := by
  have hdigits : ∀ c ∈ (toString n).toList, Exposition.escapeChar c = [c] := by
    intro c hc
    have hdigit := isDigit_of_mem_toString hc
    have hne : ∀ d : Char, d.isDigit = false → c ≠ d := by
      intro d hd heq
      rw [heq, hd] at hdigit
      cases hdigit
    simp [Exposition.escapeChar, hne '\\' rfl, hne '"' rfl, hne '\n' rfl]
  rw [Exposition.escape, List.flatMap_congr hdigits, List.flatMap_singleton']

theorem HttpKey.toList_labelsText (key : HttpKey) :
    key.labelsText.toList = '\x7b' :: (Exposition.labelsText key.labels ++ ['\x7d']) := by
  have hstatus : Exposition.escape (toString key.status).toList = (toString key.status).toList :=
    escape_toString key.status.toNat
  simp [labelsText, labels, Exposition.labelsText, Exposition.labelText, toList_escapeLabel,
    hstatus]

theorem ThriftKey.toList_labelsText (key : ThriftKey) :
    key.labelsText.toList = '\x7b' :: (Exposition.labelsText key.labels ++ ['\x7d']) := by
  simp [labelsText, labels, Exposition.labelsText, Exposition.labelText, toList_escapeLabel]

/-! ## Texts -/

/-- The samples of the three lines of a key. -/
def statsSamples (F : Millis) (total count sum : String) (labels : List (String × String))
    (stats : RequestStats) : List Sample :=
  [⟨total, labels, toString stats.count⟩, ⟨count, labels, toString stats.count⟩,
    ⟨sum, labels, F.fixed3 stats.sumMs⟩]

/-- One line of a sample, whose labels are written as `labelsText`. -/
theorem renders_line {metric labelsText value : String} {labels : List (String × String)}
    (h : (⟨metric, labels, value⟩ : Sample).WF)
    (hlabels : labelsText.toList = '\x7b' :: (Exposition.labelsText labels ++ ['\x7d'])) :
    Renders (metric ++ (labelsText ++ (" " ++ (value ++ "\n")))) 1 [⟨metric, labels, value⟩] := by
  have htext : String.ofList (Exposition.sampleText ⟨metric, labels, value⟩) ++ "\n" =
      metric ++ (labelsText ++ (" " ++ (value ++ "\n"))) := by
    rw [← String.toList_inj]
    simp [Exposition.sampleText, hlabels]
  exact htext ▸ .sample h

theorem newline_not_mem_toString (n : Nat) : '\n' ∉ (toString n).toList := by
  intro hmem
  exact absurd (isDigit_of_mem_toString hmem) (by decide)

theorem newline_not_mem_int (n : Int) : '\n' ∉ (toString n).toList := by
  cases n with
  | ofNat n => exact newline_not_mem_toString n
  | negSucc n =>
    have htext : (toString (Int.negSucc n)).toList = '-' :: (toString (n + 1)).toList := by
      simp [toString, Int.repr]
    rw [htext, List.mem_cons, not_or]
    exact ⟨by decide, newline_not_mem_toString (n + 1)⟩

theorem isNameChar_of_all {names : List String}
    (h : names.all fun name => name.toList.all Exposition.isNameChar) :
    ∀ name ∈ names, ∀ c ∈ name.toList, Exposition.isNameChar c :=
  fun name hname => List.all_eq_true.mp (List.all_eq_true.mp h name hname)

theorem renders_stats (F : Millis) {total count sum labelsText : String}
    {labels : List (String × String)} (stats : RequestStats)
    (hmetrics : ∀ metric ∈ [total, count, sum], ∀ c ∈ metric.toList, Exposition.isNameChar c)
    (hne : labels ≠ []) (hnames : ∀ label ∈ labels, ∀ c ∈ label.1.toList, Exposition.isNameChar c)
    (hlabels : labelsText.toList = '\x7b' :: (Exposition.labelsText labels ++ ['\x7d'])) :
    Renders (Metrics.renderStats F total count sum labelsText stats) 3
      (statsSamples F total count sum labels stats) := by
  have hcount : '\n' ∉ (toString stats.count).toList := newline_not_mem_toString stats.count.toNat
  have hline : ∀ metric ∈ [total, count, sum], ∀ value : String, '\n' ∉ value.toList →
      Renders (metric ++ (labelsText ++ (" " ++ (value ++ "\n")))) 1 [⟨metric, labels, value⟩] :=
    fun metric hmetric value hvalue =>
      renders_line ⟨hmetrics metric hmetric, hne, hnames, hvalue⟩ hlabels
  have hlines := ((hline total (by simp) _ hcount).append (hline count (by simp) _ hcount)).append
    (hline sum (by simp) _ (F.fixed3_line stats.sumMs))
  simp only [String.append_assoc] at hlines
  simp only [Metrics.renderStats, String.append_assoc]
  exact hlines

theorem renders_helpType {name metricType : String}
    (hname : ∀ c ∈ name.toList, Exposition.isNameChar c) (htype : '\n' ∉ metricType.toList) : Renders (writeHelpType name metricType) 2 [] := by
  have hline := Exposition.newline_not_mem_of_isNameChar hname
  have hhelp : Renders ("#" ++ (" HELP " ++ name ++ " HarborSQL metric " ++ name) ++ "\n") 1 [] :=
    .comment _ (by simp [hline])
  have htypes : Renders ("#" ++ (" TYPE " ++ name ++ " " ++ metricType) ++ "\n") 1 [] :=
    .comment _ (by simp [hline, htype])
  have htext : ("#" ++ (" HELP " ++ name ++ " HarborSQL metric " ++ name) ++ "\n") ++
      ("#" ++ (" TYPE " ++ name ++ " " ++ metricType) ++ "\n") = writeHelpType name metricType := by
    rw [← String.toList_inj]
    simp [writeHelpType]
  exact htext ▸ hhelp.append htypes

/-- The names of the counters and gauges are plain, and none is the name of a metric of requests. -/
theorem plain_names : ∀ name ∈ counterNames ++ gaugeNames,
    name ≠ "" ∧ (∀ c ∈ name.toList, Exposition.isNameChar c) ∧
      name ∉ ["harborsql_http_requests_total", "harborsql_http_request_duration_ms_count",
        "harborsql_thrift_rpcs_total", "harborsql_thrift_rpc_duration_ms_count"] := by
  have hall : (counterNames ++ gaugeNames).all fun name =>
      name ≠ "" && name.toList.all Exposition.isNameChar &&
        name ∉ ["harborsql_http_requests_total", "harborsql_http_request_duration_ms_count",
          "harborsql_thrift_rpcs_total", "harborsql_thrift_rpc_duration_ms_count"] := rfl
  intro name hname
  simpa [List.all_eq_true, and_assoc] using List.all_eq_true.mp hall name hname

namespace Metrics

variable (F : Millis) (metrics : Metrics)

def counterSamples : List Sample :=
  (metrics.counters.iter fun a b => strLe a.1 b.1).map fun (name, value) =>
    ⟨name.1, [], toString value⟩

def gaugeSamples : List Sample :=
  (metrics.gauges.iter fun a b => strLe a.1 b.1).map fun (name, value) =>
    ⟨name.1, [], toString value⟩

def timingSamples : List Sample :=
  (metrics.timings.iter fun a b => strLe a.1 b.1).flatMap fun (stage, stats) =>
    [⟨"harborsql_stage_duration_ms_count", [("stage", stage.1)], toString stats.count⟩,
      ⟨"harborsql_stage_duration_ms_sum", [("stage", stage.1)], F.fixed3 stats.sumMs⟩]

def httpSamples : List Sample :=
  (metrics.http.iter HttpKey.le).flatMap fun (key, stats) =>
    statsSamples F "harborsql_http_requests_total" "harborsql_http_request_duration_ms_count"
      "harborsql_http_request_duration_ms_sum" key.labels stats

def thriftSamples : List Sample :=
  (metrics.thrift.iter ThriftKey.le).flatMap fun (key, stats) =>
    statsSamples F "harborsql_thrift_rpcs_total" "harborsql_thrift_rpc_duration_ms_count"
      "harborsql_thrift_rpc_duration_ms_sum" key.labels stats

/-- A counter or a gauge: two comments and a line without labels. -/
theorem renders_named {name metricType value : String} (hname : name ∈ counterNames ++ gaugeNames)
    (htype : '\n' ∉ metricType.toList) (hvalue : '\n' ∉ value.toList) :
    Renders (writeHelpType name metricType ++ (name ++ " " ++ value ++ "\n")) 3
      [⟨name, [], value⟩] := by
  obtain ⟨hne, hchars, -⟩ := plain_names name hname
  exact (renders_helpType hchars htype).append (.plain hne hchars hvalue)

theorem renders_counters :
    Renders metrics.renderCounters (3 * metrics.counters.len) metrics.counterSamples := by
  rw [← BTreeMap.length_iter metrics.counters (fun a b => strLe a.1 b.1), counterSamples,
    List.map_eq_flatMap]
  apply Renders.join
  intro item _
  exact renders_named (List.mem_append_left _ item.1.2) (by decide)
    (newline_not_mem_toString item.2.toNat)

theorem renders_gauges :
    Renders metrics.renderGauges (3 * metrics.gauges.len) metrics.gaugeSamples := by
  rw [← BTreeMap.length_iter metrics.gauges (fun a b => strLe a.1 b.1), gaugeSamples,
    List.map_eq_flatMap]
  apply Renders.join
  intro item _
  exact renders_named (List.mem_append_right _ item.1.2) (by decide)
    (newline_not_mem_int item.2.toInt)

/-- Comments that stand only above a map with entries. -/
theorem renders_header {text : String} {n : Nat} (h : Renders text n []) (empty : Bool) :
    ∃ k ≤ n, Renders (if empty then "" else text) k [] := by
  cases empty with
  | true => exact ⟨0, Nat.zero_le n, .nil⟩
  | false => exact ⟨n, Nat.le_refl n, h⟩

theorem renders_timings : ∃ n ≤ 2 + 2 * metrics.timings.len,
    Renders (metrics.renderTimings F) n (metrics.timingSamples F) := by
  have hcomments : Renders
      ("# HELP harborsql_stage_duration_ms Query-stage duration in milliseconds\n" ++
        "# TYPE harborsql_stage_duration_ms summary\n") 2 [] :=
    .append
      (.comment " HELP harborsql_stage_duration_ms Query-stage duration in milliseconds"
        (by decide))
      (.comment " TYPE harborsql_stage_duration_ms summary" (by decide))
  have hcount : ∀ c ∈ "harborsql_stage_duration_ms_count".toList, Exposition.isNameChar c :=
    List.all_eq_true.mp rfl
  have hsum : ∀ c ∈ "harborsql_stage_duration_ms_sum".toList, Exposition.isNameChar c :=
    List.all_eq_true.mp rfl
  have hstage : ∀ c ∈ "stage".toList, Exposition.isNameChar c := List.all_eq_true.mp rfl
  obtain ⟨k, hk, hheader⟩ := renders_header hcomments metrics.timings.entries.isEmpty
  refine ⟨k + 2 * (metrics.timings.iter fun a b => strLe a.1 b.1).length, ?_,
    hheader.append (.join ?_)⟩
  · rw [BTreeMap.length_iter]
    omega
  · intro ⟨stage, stats⟩ _
    have hlabels : ("\x7bstage=\x22" ++ escapeLabel stage.1 ++ "\x22\x7d").toList =
        '\x7b' :: (Exposition.labelsText [("stage", stage.1)] ++ ['\x7d']) := by
      simp [Exposition.labelsText, Exposition.labelText, toList_escapeLabel]
    have hnames : ∀ label ∈ [("stage", stage.1)], ∀ c ∈ label.1.toList,
        Exposition.isNameChar c := by
      rw [List.forall_mem_singleton]
      exact hstage
    have hlines := (renders_line ⟨hcount, List.cons_ne_nil _ _, hnames,
      newline_not_mem_toString stats.count.toNat⟩ hlabels).append
      (renders_line ⟨hsum, List.cons_ne_nil _ _, hnames, F.fixed3_line stats.sumMs⟩ hlabels)
    simp only [String.append_assoc] at hlines ⊢
    exact hlines

theorem renders_http : ∃ n ≤ 4 + 3 * metrics.http.len,
    Renders (metrics.renderHttp F) n (metrics.httpSamples F) := by
  have hcomments : Renders
      ("# HELP harborsql_http_requests_total HTTP requests by method, route, and status\n" ++
        "# TYPE harborsql_http_requests_total counter\n" ++
        "# HELP harborsql_http_request_duration_ms HTTP request duration in milliseconds\n" ++
        "# TYPE harborsql_http_request_duration_ms summary\n") 4 [] :=
    (((Renders.comment
      " HELP harborsql_http_requests_total HTTP requests by method, route, and status"
      (by decide)).append
    (.comment " TYPE harborsql_http_requests_total counter" (by decide))).append
    (.comment " HELP harborsql_http_request_duration_ms HTTP request duration in milliseconds"
      (by decide))).append
    (.comment " TYPE harborsql_http_request_duration_ms summary" (by decide))
  obtain ⟨k, hk, hheader⟩ := renders_header hcomments metrics.http.entries.isEmpty
  refine ⟨k + 3 * (metrics.http.iter HttpKey.le).length, ?_, hheader.append (.join ?_)⟩
  · rw [BTreeMap.length_iter]
    omega
  · intro ⟨key, stats⟩ _
    apply renders_stats F stats (isNameChar_of_all rfl) (List.cons_ne_nil _ _) _ key.toList_labelsText
    simp only [List.forall_mem_cons]
    exact ⟨List.all_eq_true.mp rfl, List.all_eq_true.mp rfl, List.all_eq_true.mp rfl, nofun⟩

theorem renders_thrift : ∃ n ≤ 4 + 3 * metrics.thrift.len,
    Renders (metrics.renderThrift F) n (metrics.thriftSamples F) := by
  have hcomments : Renders
      ("# HELP harborsql_thrift_rpcs_total Thrift RPCs by method and status\n" ++
        "# TYPE harborsql_thrift_rpcs_total counter\n" ++
        "# HELP harborsql_thrift_rpc_duration_ms Thrift RPC duration in milliseconds\n" ++
        "# TYPE harborsql_thrift_rpc_duration_ms summary\n") 4 [] :=
    (((Renders.comment
      " HELP harborsql_thrift_rpcs_total Thrift RPCs by method and status"
      (by decide)).append
    (.comment " TYPE harborsql_thrift_rpcs_total counter" (by decide))).append
    (.comment " HELP harborsql_thrift_rpc_duration_ms Thrift RPC duration in milliseconds"
      (by decide))).append
    (.comment " TYPE harborsql_thrift_rpc_duration_ms summary" (by decide))
  obtain ⟨k, hk, hheader⟩ := renders_header hcomments metrics.thrift.entries.isEmpty
  refine ⟨k + 3 * (metrics.thrift.iter ThriftKey.le).length, ?_, hheader.append (.join ?_)⟩
  · rw [BTreeMap.length_iter]
    omega
  · intro ⟨key, stats⟩ _
    apply renders_stats F stats (isNameChar_of_all rfl) (List.cons_ne_nil _ _) _ key.toList_labelsText
    simp only [List.forall_mem_cons]
    exact ⟨List.all_eq_true.mp rfl, List.all_eq_true.mp rfl, nofun⟩

theorem renders_prometheus : ∃ n ≤ 3 * metrics.counters.len + 3 * metrics.gauges.len +
      (2 + 2 * metrics.timings.len) + (4 + 3 * metrics.http.len) + (4 + 3 * metrics.thrift.len),
    Renders (metrics.renderPrometheus F) n (metrics.counterSamples ++ metrics.gaugeSamples ++
      metrics.timingSamples F ++ metrics.httpSamples F ++ metrics.thriftSamples F) := by
  obtain ⟨t, ht, htimings⟩ := metrics.renders_timings F
  obtain ⟨h, hh, hhttp⟩ := metrics.renders_http F
  obtain ⟨r, hr, hthrift⟩ := metrics.renders_thrift F
  refine ⟨_, ?_, (((metrics.renders_counters.append metrics.renders_gauges).append htimings).append
    hhttp).append hthrift⟩
  omega

/-! ## The samples of a metric -/

/-- The samples of a metric that a reader finds in the text. -/
def samplesOf (metric : String) : List Sample :=
  (Exposition.samples (metrics.renderPrometheus F).toList).filter (·.metric = metric)

/-- The metrics that count the requests of a key. -/
def requestMetrics : List String :=
  ["harborsql_http_requests_total", "harborsql_http_request_duration_ms_count",
    "harborsql_thrift_rpcs_total", "harborsql_thrift_rpc_duration_ms_count"]

theorem samplesOf_eq {metric : String} (h : metric ∈ requestMetrics) :
    metrics.samplesOf F metric = (metrics.httpSamples F).filter (·.metric = metric) ++
      (metrics.thriftSamples F).filter (·.metric = metric) := by
  obtain ⟨n, -, hrenders⟩ := metrics.renders_prometheus F
  have hcounters : metrics.counterSamples.filter (·.metric = metric) = [] := by
    simp only [List.filter_eq_nil_iff, counterSamples, List.mem_map, decide_eq_true_eq]
    rintro _ ⟨item, -, rfl⟩ rfl
    exact (plain_names _ (List.mem_append_left _ item.1.2)).2.2 h
  have hgauges : metrics.gaugeSamples.filter (·.metric = metric) = [] := by
    simp only [List.filter_eq_nil_iff, gaugeSamples, List.mem_map, decide_eq_true_eq]
    rintro _ ⟨item, -, rfl⟩ rfl
    exact (plain_names _ (List.mem_append_right _ item.1.2)).2.2 h
  have htimings : (metrics.timingSamples F).filter (·.metric = metric) = [] := by
    simp only [List.filter_eq_nil_iff, timingSamples, List.mem_flatMap, decide_eq_true_eq]
    rintro sample ⟨item, -, hsample⟩ rfl
    simp only [List.mem_cons, List.not_mem_nil, or_false] at hsample
    rcases hsample with rfl | rfl <;> simp [requestMetrics] at h
  rw [samplesOf, hrenders.samples_eq]
  simp only [List.filter_append, hcounters, hgauges, htimings, List.nil_append]

/-- Each key has one sample of a metric when one of its lines is of the metric. -/
theorem filter_flatMap_eq_map {α : Type} (items : List α) {f : α → List Sample}
    {g : α → Sample} {metric : String}
    (h : ∀ item, (f item).filter (·.metric = metric) = [g item]) :
    (items.flatMap f).filter (·.metric = metric) = items.map g := by
  rw [List.filter_flatMap, List.flatMap_congr fun item _ => h item, List.map_eq_flatMap]

theorem filter_flatMap_eq_nil {α : Type} (items : List α) {f : α → List Sample}
    {metric : String} (h : ∀ item, (f item).filter (·.metric = metric) = []) :
    (items.flatMap f).filter (·.metric = metric) = [] := by
  rw [List.filter_flatMap, List.flatMap_congr fun item _ => h item]
  simp

theorem samplesOf_http {metric : String}
    (h : metric = "harborsql_http_requests_total" ∨
      metric = "harborsql_http_request_duration_ms_count") :
    metrics.samplesOf F metric = (metrics.http.iter HttpKey.le).map fun (key, stats) =>
      ⟨metric, key.labels, toString stats.count⟩ := by
  have hmem : metric ∈ requestMetrics := by rcases h with rfl | rfl <;> decide
  rw [samplesOf_eq F metrics hmem, httpSamples, thriftSamples,
    filter_flatMap_eq_map (g := fun (key, stats) => ⟨metric, key.labels, toString stats.count⟩),
    filter_flatMap_eq_nil, List.append_nil]
  · intro item
    rcases h with rfl | rfl <;> simp [statsSamples]
  · intro item
    rcases h with rfl | rfl <;> simp [statsSamples]

theorem samplesOf_thrift {metric : String}
    (h : metric = "harborsql_thrift_rpcs_total" ∨
      metric = "harborsql_thrift_rpc_duration_ms_count") :
    metrics.samplesOf F metric = (metrics.thrift.iter ThriftKey.le).map fun (key, stats) =>
      ⟨metric, key.labels, toString stats.count⟩ := by
  have hmem : metric ∈ requestMetrics := by rcases h with rfl | rfl <;> decide
  rw [samplesOf_eq F metrics hmem, httpSamples, thriftSamples, filter_flatMap_eq_nil,
    filter_flatMap_eq_map (g := fun (key, stats) => ⟨metric, key.labels, toString stats.count⟩),
    List.nil_append]
  · intro item
    rcases h with rfl | rfl <;> simp [statsSamples]
  · intro item
    rcases h with rfl | rfl <;> simp [statsSamples]

end Metrics

/-! ## Runs -/

/-- The key of the HTTP map that a call observes. -/
def Observation.httpKey : Observation → Option HttpKey
  | .http method route status _ => some ⟨method, route, status⟩
  | _ => none

def Observation.thriftKey : Observation → Option ThriftKey
  | .thrift method status _ => some ⟨method, status⟩
  | _ => none

/-- A map has the keys that were observed, each with the number of its observations. -/
structure Tallies {κ : Type} [DecidableEq κ] (m : BTreeMap κ RequestStats) (observed : List κ) :
    Prop where
  mem : ∀ key, key ∈ m ↔ key ∈ observed
  count : ∀ key, ((m.lookup key).getD .new).count = .ofNat (observed.count key)

/-- The update of the HTTP map that a call makes. -/
def Observation.httpUpdate (F : Millis) :
    Observation → Option (HttpKey × (RequestStats → RequestStats))
  | .http method route status elapsed =>
    some (⟨method, route, status⟩, .observe F (F.ofDuration elapsed))
  | _ => none

def Observation.thriftUpdate (F : Millis) :
    Observation → Option (ThriftKey × (RequestStats → RequestStats))
  | .thrift method status elapsed =>
    some (⟨method, status⟩, .observe F (F.ofDuration elapsed))
  | _ => none

/-- Updates that each count one observation. -/
def CountsOne {κ : Type} (updates : List (κ × (RequestStats → RequestStats))) : Prop :=
  ∀ update ∈ updates, ∀ stats, (update.2 stats).count = stats.count + 1

theorem CountsOne.count_foldl {κ : Type} {updates : List (κ × (RequestStats → RequestStats))}
    (h : CountsOne updates) (stats : RequestStats) :
    (updates.foldl (fun stats update => update.2 stats) stats).count =
      stats.count + .ofNat updates.length := by
  induction updates generalizing stats with
  | nil => simp
  | cons update updates ih =>
    rw [List.foldl_cons, ih fun u hu => h u (.tail _ hu), h update List.mem_cons_self,
      List.length_cons, UInt64.ofNat_add, UInt64.add_assoc, UInt64.add_comm 1]
    rfl

theorem CountsOne.tallies {κ : Type} [DecidableEq κ]
    {updates : List (κ × (RequestStats → RequestStats))} (h : CountsOne updates) :
    Tallies (BTreeMap.updateAll ∅ .new updates) (updates.map (·.1)) where
  mem key := by simp [BTreeMap.mem_updateAll]
  count key := by
    have hsub : CountsOne (updates.filter (·.1 = key)) :=
      fun u hu => h u (List.mem_filter.mp hu).1
    have hlength : (updates.filter (·.1 = key)).length = (updates.map (·.1)).count key := by
      rw [List.count, List.countP_map, List.countP_eq_length_filter]
      rfl
    rw [BTreeMap.lookup_updateAll, hsub.count_foldl, hlength]
    exact UInt64.zero_add _

theorem Metrics.observeAll_http (F : Millis) (metrics : Metrics) (observations : List Observation) :
    (metrics.observeAll F observations).http =
      metrics.http.updateAll .new (observations.filterMap (Observation.httpUpdate F)) := by
  induction observations generalizing metrics with
  | nil => rfl
  | cons observation observations ih =>
    have hstep : metrics.observeAll F (observation :: observations) =
      (metrics.observe F observation).observeAll F observations := rfl
    rw [hstep, ih]
    cases observation <;> rfl

theorem Metrics.observeAll_thrift (F : Millis) (metrics : Metrics)
    (observations : List Observation) :
    (metrics.observeAll F observations).thrift =
      metrics.thrift.updateAll .new (observations.filterMap (Observation.thriftUpdate F)) := by
  induction observations generalizing metrics with
  | nil => rfl
  | cons observation observations ih =>
    have hstep : metrics.observeAll F (observation :: observations) =
      (metrics.observe F observation).observeAll F observations := rfl
    rw [hstep, ih]
    cases observation <;> rfl

theorem tallies_http (F : Millis) (observations : List Observation) :
    Tallies (Metrics.new.observeAll F observations).http
      (observations.filterMap Observation.httpKey) := by
  have hone : CountsOne (observations.filterMap (Observation.httpUpdate F)) := by
    intro update hmem stats
    obtain ⟨observation, -, hupdate⟩ := List.mem_filterMap.mp hmem
    cases observation <;> cases hupdate
    rfl
  have hkeys : (observations.filterMap (Observation.httpUpdate F)).map (·.1) =
      observations.filterMap Observation.httpKey := by
    rw [List.map_filterMap]
    congr 1
    funext observation
    cases observation <;> rfl
  rw [← hkeys, Metrics.observeAll_http]
  exact hone.tallies

theorem tallies_thrift (F : Millis) (observations : List Observation) :
    Tallies (Metrics.new.observeAll F observations).thrift
      (observations.filterMap Observation.thriftKey) := by
  have hone : CountsOne (observations.filterMap (Observation.thriftUpdate F)) := by
    intro update hmem stats
    obtain ⟨observation, -, hupdate⟩ := List.mem_filterMap.mp hmem
    cases observation <;> cases hupdate
    rfl
  have hkeys : (observations.filterMap (Observation.thriftUpdate F)).map (·.1) =
      observations.filterMap Observation.thriftKey := by
    rw [List.map_filterMap]
    congr 1
    funext observation
    cases observation <;> rfl
  rw [← hkeys, Metrics.observeAll_thrift]
  exact hone.tallies

/-- Of each observed key there is one sample of a metric, with the labels of the key and the number
of its observations. -/
def CountsEach {κ : Type} [DecidableEq κ] (samples : List Sample) (metric : String)
    (labels : κ → List (String × String)) (observed : List κ) : Prop :=
  ∃ keys : List κ, keys.Nodup ∧ (∀ key, key ∈ keys ↔ key ∈ observed) ∧
    samples = keys.map fun key =>
      ⟨metric, labels key, toString (UInt64.ofNat (observed.count key))⟩

theorem Tallies.countsEach {κ : Type} [DecidableEq κ] {m : BTreeMap κ RequestStats}
    {observed : List κ} (h : Tallies m observed) (le : κ → κ → Bool) (metric : String)
    (labels : κ → List (String × String)) :
    CountsEach ((m.iter le).map fun (key, stats) => ⟨metric, labels key, toString stats.count⟩)
      metric labels observed := by
  refine ⟨(m.iter le).map (·.1), BTreeMap.nodup_map_fst_iter, ?_, ?_⟩
  · intro key
    rw [BTreeMap.map_fst_iter_perm.mem_iff, ← h.mem]
    rfl
  · rw [List.map_map]
    apply List.map_congr_left
    intro ⟨key, stats⟩ hmem
    have hstats := h.count key
    rw [BTreeMap.mem_iter.mp hmem, Option.getD_some] at hstats
    simp [hstats]

/-- After any calls, a reader of the Prometheus text finds for each metric that counts requests one
sample of each observed key, with its labels and its count, and no other; and distinct keys have
distinct labels. -/
theorem prometheusUnambiguous (F : Millis) (observations : List Observation) :
    let metrics := Metrics.new.observeAll F observations
    let http := observations.filterMap Observation.httpKey
    let thrift := observations.filterMap Observation.thriftKey
    CountsEach (metrics.samplesOf F "harborsql_http_requests_total")
        "harborsql_http_requests_total" HttpKey.labels http ∧
      CountsEach (metrics.samplesOf F "harborsql_http_request_duration_ms_count")
        "harborsql_http_request_duration_ms_count" HttpKey.labels http ∧
      CountsEach (metrics.samplesOf F "harborsql_thrift_rpcs_total")
        "harborsql_thrift_rpcs_total" ThriftKey.labels thrift ∧
      CountsEach (metrics.samplesOf F "harborsql_thrift_rpc_duration_ms_count")
        "harborsql_thrift_rpc_duration_ms_count" ThriftKey.labels thrift ∧
      Function.Injective HttpKey.labels ∧ Function.Injective ThriftKey.labels := by
  intro metrics http thrift
  have hhttp := tallies_http F observations
  have hthrift := tallies_thrift F observations
  refine ⟨?_, ?_, ?_, ?_, HttpKey.labels_injective, ThriftKey.labels_injective⟩
  · rw [Metrics.samplesOf_http F metrics (.inl rfl)]
    exact hhttp.countsEach ..
  · rw [Metrics.samplesOf_http F metrics (.inr rfl)]
    exact hhttp.countsEach ..
  · rw [Metrics.samplesOf_thrift F metrics (.inl rfl)]
    exact hthrift.countsEach ..
  · rw [Metrics.samplesOf_thrift F metrics (.inr rfl)]
    exact hthrift.countsEach ..

end HarborSql
