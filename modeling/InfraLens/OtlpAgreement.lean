import InfraLens.LibList
import InfraLens.OtlpAttributes

/-! Whole requests, once as protobuf messages and once as OTLP/JSON: whether the two decoders give
the same records, where they agree on the attributes. -/
namespace InfraLens.Otlp
open LibBincode LibList LibMap LibText LibJson Model

/-- The decoders agree on the attributes of resources and scopes. -/
def EnvelopeAgrees {α : Type} (groups : List (ResourceItems α)) : Prop :=
  ∀ r ∈ groups, (∀ res, r.resource = some res → AttrsAgree res.attributes) ∧
    ∀ s ∈ r.scopes, ∀ sc, s.scope = some sc → AttrsAgree sc.attributes

theorem reduceOption_map {α β : Type} (f : α → Option β) (xs : List α) :
    (xs.map f).reduceOption = xs.filterMap f := by
  change (xs.map f).filterMap id = xs.filterMap f
  rw [List.filterMap_map]
  rfl

/-! ### Resources and scopes -/

theorem decodeScope_encodeScope (scope : Option ProtoScope)
    (h : ∀ sc, scope = some sc → AttrsAgree sc.attributes) :
    decodeScope (scope.map encodeScope) = convertScope scope := by
  cases scope with
  | none => rfl
  | some s =>
    have hget : ∀ k, (encodeScope s).get k = _ := fun k => Json.get_ofFields k _ (by simp)
    have hname := textField_of (encodeScope s) "name" s.name (hget _)
    have hversion := textField_of (encodeScope s) "version" s.version (hget _)
    have hattrs := attrsField_of (encodeScope s) "attributes" s.attributes (hget _) (h s rfl)
    rw [Option.map_some, decodeScope, convertScope, hname, hversion, hattrs]

theorem resource_attributes (resource : Option Resource)
    (h : ∀ res, resource = some res → AttrsAgree res.attributes) :
    ((resource.map encodeResource).map fun res => attrsField res "attributes").getD
      HashMap.empty = resourceAttrs resource := by
  cases resource with
  | none => rfl
  | some r =>
    exact attrsField_of (encodeResource r) "attributes" r.attributes
      (Json.get_ofFields _ _ (by simp)) (h r rfl)

section Walk
variable {α : Type} (resources scopes items : String) (item : α → Value)

theorem items_of_scope (attrs : HashMap Str AnyValue) (s : ScopeItems α)
    (h : ∀ sc, s.scope = some sc → AttrsAgree sc.attributes) (hscope : items ≠ "scope")
    (hurl : items ≠ "schemaUrl") :
    ((elements (encodeScopeItems items item s) items).map fun x =>
      ((⟨attrs, decodeScope ((encodeScopeItems items item s).get "scope"),
        textField (encodeScopeItems items item s) "schemaUrl"⟩ : Context), x)) =
      s.items.map fun x => (⟨attrs, convertScope s.scope, s.schemaUrl⟩, item x) := by
  have hget : ∀ k, (encodeScopeItems items item s).get k = _ :=
    fun k => Json.get_ofFields k _ (by simp [hurl, hscope.symm])
  have hitems := elements_of (encodeScopeItems items item s) items (s.items.map item)
    ((hget _).trans (by simp [List.lookup_cons, beq_false_of_ne hscope]))
  have hname : (encodeScopeItems items item s).get "scope" = s.scope.map encodeScope :=
    (hget _).trans (by simp)
  have htext := textField_of (encodeScopeItems items item s) "schemaUrl" s.schemaUrl
    ((hget _).trans (by simp [List.lookup_cons, beq_false_of_ne hurl.symm]))
  rw [hitems, hname, htext, decodeScope_encodeScope s.scope h, List.map_map]
  rfl

/-- The loops of the two decoders meet the same items in the same contexts. -/
theorem decodeWalk_encodeRequest (groups : List (ResourceItems α)) (h : EnvelopeAgrees groups)
    (hres : scopes ≠ "resource") (hscope : items ≠ "scope") (hurl : items ≠ "schemaUrl") :
    decodeWalk resources scopes items (encodeRequest resources scopes items item groups) =
      (walk groups).map fun p => (p.1, item p.2) := by
  have hgroups := elements_of (encodeRequest resources scopes items item groups) resources
    (groups.map (encodeResourceItems scopes items item))
    ((Json.get_ofFields _ _ (by simp)).trans (by simp))
  rw [decodeWalk, hgroups, walk, List.map_flatMap, List.flatMap_map]
  refine List.flatMap_congr fun r hr => ?_
  have hget : ∀ k, (encodeResourceItems scopes items item r).get k = _ :=
    fun k => Json.get_ofFields k _ (by simp [hres.symm])
  have hscopes := elements_of (encodeResourceItems scopes items item r) scopes
    (r.scopes.map (encodeScopeItems items item))
    ((hget _).trans (by simp [List.lookup_cons, beq_false_of_ne hres]))
  have hname : (encodeResourceItems scopes items item r).get "resource" =
      r.resource.map encodeResource := (hget _).trans (by simp)
  rw [hscopes, hname, resource_attributes r.resource (h r hr).1, List.map_flatMap,
    List.flatMap_map]
  refine List.flatMap_congr fun s hs => ?_
  rw [items_of_scope items item _ s ((h r hr).2 s hs) hscope hurl, List.map_map]
  rfl

end Walk

/-! Requests with one item, from a service that names itself in its resource. -/

def serviceKey : Str := ⟨"service.name", by decide⟩
def serviceName : Str := ⟨"checkout", by decide⟩

def serviceAttrs : Vec KeyValue := ⟨[(serviceKey, some (.stringValue serviceName))], by decide⟩

def oneItem {α : Type} (x : α) : List (ResourceItems α) :=
  [⟨some ⟨serviceAttrs⟩, [⟨none, [x], Str.empty⟩]⟩]

theorem serviceAttrs_agree : AttrsAgree serviceAttrs :=
  attrsAgree_singleton serviceKey (.stringValue serviceName) (by decide) (by rw [isPlain])

theorem oneItem_agrees {α : Type} (x : α) : EnvelopeAgrees (oneItem x) := by
  intro r hr
  cases List.mem_singleton.mp hr
  constructor
  · intro res hres
    cases hres
    exact serviceAttrs_agree
  · intro s hs sc hsc
    cases List.mem_singleton.mp hs
    cases hsc

theorem forall_oneItem {α : Type} (P : α → Prop) (x : α) (h : P x) :
    ∀ y ∈ allItems (oneItem x), P y := by
  intro y hy
  have hxy : y = x := by simpa [allItems, oneItem] using hy
  exact hxy ▸ h

/-! ### Logs -/

/-- The decoders agree on the attributes and bodies of a logs request. -/
def LogsAgree (resourceLogs : List ResourceLogs) : Prop :=
  EnvelopeAgrees resourceLogs ∧ ∀ rec ∈ allItems resourceLogs, AttrsAgree rec.attributes ∧
    ∀ v, rec.body = some v → decodeAnyValue (encodeAnyValue false v) = convertAnyValue v

/-- The time that the JSON decoder takes for the observed time. -/
def observedTime (rec : ProtoLogRecord) : UInt64 :=
  if rec.observedTimeUnixNano = 0 then rec.timeUnixNano else rec.observedTimeUnixNano

theorem decodeLog_encode (c : Context) (rec : ProtoLogRecord) (hattrs : AttrsAgree rec.attributes)
    (hbody : ∀ v, rec.body = some v →
      decodeAnyValue (encodeAnyValue false v) = convertAnyValue v) :
    decodeLog c (encodeLogRecord rec) =
      .ok { normaliseLog c rec with observedTimestampNs := observedTime rec } := by
  have hget : ∀ k, (encodeLogRecord rec).get k = _ := fun k => Json.get_ofFields k _ (by simp)
  have htime := u64Field_of (encodeLogRecord rec) "timeUnixNano" rec.timeUnixNano (hget _)
  have htrace := idField16_of (encodeLogRecord rec) "traceId" rec.traceId (hget _)
  have hspan := idField8_of (encodeLogRecord rec) "spanId" rec.spanId (hget _)
  have hnumber := i32Field_of (encodeLogRecord rec) "severityNumber" rec.severityNumber (hget _)
  have htext := textField_of (encodeLogRecord rec) "severityText" rec.severityText (hget _)
  have hattributes :=
    attrsField_of (encodeLogRecord rec) "attributes" rec.attributes (hget _) hattrs
  have hobserved : (((encodeLogRecord rec).get "observedTimeUnixNano").map decodeU64).getD
      rec.timeUnixNano = observedTime rec := by
    have hfield : (encodeLogRecord rec).get "observedTimeUnixNano" =
        encodeFixed64 rec.observedTimeUnixNano := hget _
    rw [hfield, encodeFixed64, observedTime]
    split
    next h => rfl
    next h => exact decodeU64_encodeU64 _
  have hbodies : ((encodeLogRecord rec).get "body").map decodeAnyValue =
      rec.body.map convertAnyValue := by
    have hfield : (encodeLogRecord rec).get "body" = rec.body.map (encodeAnyValue false) := hget _
    rw [hfield]
    cases hb : rec.body with
    | none => rfl
    | some v => exact congrArg some (hbody v hb)
  simp only [decodeLog, htime, htrace, hspan, hnumber, htext, hattributes, hobserved, hbodies]
  rfl

theorem decodeLogs_encode (resourceLogs : List ResourceLogs) (h : LogsAgree resourceLogs) :
    decodeLogs (encodeLogs resourceLogs) = .ok ((walk resourceLogs).map fun p =>
      { normaliseLog p.1 p.2 with observedTimestampNs := observedTime p.2 }) := by
  rw [decodeLogs, encodeLogs, decodeWalk_encodeRequest _ _ _ _ _ h.1 (by simp) (by simp)
    (by simp), List.mapM_map]
  refine mapM_ok _ _ _ fun p hp => ?_
  obtain ⟨hattrs, hbody⟩ := (forall_walk _ resourceLogs).mpr h.2 p hp
  exact decodeLog_encode p.1 p.2 hattrs hbody

theorem observedTime_iff (c : Context) (rec : ProtoLogRecord) :
    { normaliseLog c rec with observedTimestampNs := observedTime rec } = normaliseLog c rec ↔
      rec.observedTimeUnixNano ≠ 0 ∨ rec.timeUnixNano = 0 := by
  have hfield : { normaliseLog c rec with observedTimestampNs := observedTime rec } =
      normaliseLog c rec ↔ observedTime rec = rec.observedTimeUnixNano := by
    simp [normaliseLog]
  rw [hfield, observedTime]
  split
  next h0 => simp [h0]
  next h0 => simp [h0]

/-- The two decoders agree on a logs request exactly when no record has a time but no observed
time. -/
theorem logs_agree_iff (resourceLogs : List ResourceLogs) (h : LogsAgree resourceLogs) :
    decodeLogs (encodeLogs resourceLogs) = .ok (normaliseLogs resourceLogs) ↔
      ∀ rec ∈ allItems resourceLogs, rec.observedTimeUnixNano ≠ 0 ∨ rec.timeUnixNano = 0 := by
  rw [decodeLogs_encode resourceLogs h, Except.ok.injEq, normaliseLogs, List.map_inj_left,
    ← forall_walk]
  exact forall₂_congr fun p _ => observedTime_iff p.1 p.2

def logAt (timeUnixNano observedTimeUnixNano : UInt64) : ProtoLogRecord where
  timeUnixNano := timeUnixNano
  observedTimeUnixNano := observedTimeUnixNano
  severityNumber := 9
  severityText := ⟨"INFO", by decide⟩
  body := some (.stringValue serviceName)
  attributes := serviceAttrs
  traceId := ⟨List.replicate 16 1, by decide⟩
  spanId := ⟨[1, 2, 3], by decide⟩

theorem logAt_agrees (time observed : UInt64) : LogsAgree (oneItem (logAt time observed)) := by
  refine ⟨oneItem_agrees _, forall_oneItem _ _ ⟨serviceAttrs_agree, fun v hv => ?_⟩⟩
  cases hv
  exact (decode_encode_iff false _).mpr (by rw [isPlain])

theorem logs_agree_observed : decodeLogs (encodeLogs (oneItem (logAt 5 7))) =
    .ok (normaliseLogs (oneItem (logAt 5 7))) :=
  (logs_agree_iff (oneItem (logAt 5 7)) (logAt_agrees 5 7)).mpr
    (forall_oneItem _ _ (Or.inl (by decide)))

/-- Without an observed time the JSON path stores the time of the record, the protobuf path 0. -/
theorem logs_disagree_unobserved : LogsAgree (oneItem (logAt 5 0)) ∧
    (decodeLogs (encodeLogs (oneItem (logAt 5 0)))).map (List.map LogRecord.observedTimestampNs) =
      .ok [5] ∧
    (normaliseLogs (oneItem (logAt 5 0))).map LogRecord.observedTimestampNs = [0] := by
  refine ⟨logAt_agrees 5 0, ?_, rfl⟩
  rw [decodeLogs_encode _ (logAt_agrees 5 0)]
  rfl

/-! ### Metrics -/

/-- The decoders agree on the attributes of the points of a metric. -/
def PointsAgree (m : ProtoMetric) : Prop :=
  match m.data with
  | some (.gauge dps) => ∀ dp ∈ dps, AttrsAgree dp.attributes
  | some (.sum dps _ _) => ∀ dp ∈ dps, AttrsAgree dp.attributes
  | some (.histogram dps _) => ∀ dp ∈ dps, AttrsAgree dp.attributes
  | some (.exponentialHistogram dps _) => ∀ dp ∈ dps, AttrsAgree dp.attributes
  | some (.summary dps) => ∀ dp ∈ dps, AttrsAgree dp.attributes
  | none => True

def MetricsAgree (resourceMetrics : List ResourceMetrics) : Prop :=
  EnvelopeAgrees resourceMetrics ∧ ∀ m ∈ allItems resourceMetrics, PointsAgree m

/-- A point without a value or with a finite double: integers are strings in JSON, and the
decoder reads numbers only. -/
def NumberDataPoint.isReadable (dp : NumberDataPoint) : Bool :=
  match dp.value with
  | none => true
  | some (.asDouble x) => isFinite x
  | some (.asInt _) => false

/-- The points of gauges and sums are readable, and there are no points of histograms. -/
def ProtoMetric.isReadable (m : ProtoMetric) : Bool :=
  match m.data with
  | some (.gauge dps) => dps.all NumberDataPoint.isReadable
  | some (.sum dps _ _) => dps.all NumberDataPoint.isReadable
  | some (.histogram dps _) => dps.isEmpty
  | _ => true

theorem get_encodeMetric (m : ProtoMetric) (k : String) :
    (encodeMetric m).get k =
      (List.lookup k ([("name", encodeText m.name), ("description", encodeText m.description),
        ("unit", encodeText m.unit)] ++
          (m.data.map encodeData).toList.map fun d => (d.1, some d.2))).join := by
  refine Json.get_ofFields k _ ?_
  cases m.data with
  | none => simp
  | some d => cases d <;> simp [encodeData]

theorem asF64_encodeDouble_iff (x : F64) : (encodeDouble x).asF64 = some x ↔ isFinite x = true := by
  cases hx : isFinite x with
  | true => simp [encodeDouble, hx, Json.asF64]
  | false => simp [asF64_encodeDouble x hx]

theorem decodeNumberPoint_eq_iff (c : Context) (m : ProtoMetric) (metricType : MetricType)
    (dp : NumberDataPoint) (h : AttrsAgree dp.attributes) :
    decodeNumberPoint c (encodeMetric m) metricType (encodeNumberDataPoint dp) =
      numberPoint c m metricType dp ↔ dp.isReadable = true := by
  have hname := textField_of (encodeMetric m) "name" m.name (get_encodeMetric m _)
  have hdescription :=
    textField_of (encodeMetric m) "description" m.description (get_encodeMetric m _)
  have hunit := textField_of (encodeMetric m) "unit" m.unit (get_encodeMetric m _)
  have hget : ∀ k, (encodeNumberDataPoint dp).get k = _ :=
    fun k => Json.get_ofFields k _ (by simp)
  have htime := u64Field_of (encodeNumberDataPoint dp) "timeUnixNano" dp.timeUnixNano (hget _)
  have hstart :=
    u64Field_of (encodeNumberDataPoint dp) "startTimeUnixNano" dp.startTimeUnixNano (hget _)
  have hattrs := attrsField_of (encodeNumberDataPoint dp) "attributes" dp.attributes (hget _) h
  have hdouble : (encodeNumberDataPoint dp).get "asDouble" = dp.double?.map encodeDouble := hget _
  have hint : (encodeNumberDataPoint dp).get "asInt" = dp.int?.map encodeI64 := hget _
  rw [decodeNumberPoint, numberPoint, hname, hdescription, hunit, htime, hstart, hattrs, hdouble,
    hint]
  have hvalues : ∀ d i, metricPoint c m.name m.description m.unit metricType dp.timeUnixNano
      dp.startTimeUnixNano d i none (convertAttrs dp.attributes) =
        metricPoint c m.name m.description m.unit metricType dp.timeUnixNano
          dp.startTimeUnixNano dp.double? dp.int? none (convertAttrs dp.attributes) ↔
        d = dp.double? ∧ i = dp.int? := by
    intro d i
    simp [metricPoint]
  rw [hvalues, NumberDataPoint.double?, NumberDataPoint.int?, NumberDataPoint.isReadable]
  cases dp.value with
  | none => simp
  | some v =>
    cases v with
    | asDouble x => simp [asF64_encodeDouble_iff]
    | asInt i => simp [encodeI64, Json.asI64]

theorem map_points_eq_iff (c : Context) (m : ProtoMetric) (metricType : MetricType)
    (dps : List NumberDataPoint) (h : ∀ dp ∈ dps, AttrsAgree dp.attributes) :
    (dps.map encodeNumberDataPoint).map (decodeNumberPoint c (encodeMetric m) metricType) =
      dps.map (numberPoint c m metricType) ↔ dps.all NumberDataPoint.isReadable = true := by
  rw [List.map_map, List.map_inj_left, List.all_eq_true]
  exact forall₂_congr fun dp hdp => decodeNumberPoint_eq_iff c m metricType dp (h dp hdp)

theorem decodeMetric_encode (c : Context) (m : ProtoMetric) :
    decodeMetric c (encodeMetric m) =
      match m.data with
      | some (.gauge dps) =>
        (dps.map encodeNumberDataPoint).map (decodeNumberPoint c (encodeMetric m) .gauge)
      | some (.sum dps temporality isMonotonic) =>
        (dps.map encodeNumberDataPoint).map
          (decodeNumberPoint c (encodeMetric m) (.sum isMonotonic temporality))
      | _ => [] := by
  have hgauge := get_encodeMetric m "gauge"
  have hsum := get_encodeMetric m "sum"
  rw [decodeMetric, hgauge, hsum]
  cases m.data with
  | none => rfl
  | some d =>
    cases d with
    | gauge dps =>
      have hpoints := elements_of (encodeData (.gauge dps)).2 "dataPoints"
        (dps.map encodeNumberDataPoint) (Json.get_ofFields _ _ (by simp))
      change decodeGauge c (encodeMetric m) (encodeData (.gauge dps)).2 ++ [] = _
      rw [decodeGauge, hpoints, List.append_nil]
    | sum dps temporality isMonotonic =>
      have hget : ∀ k, (encodeData (.sum dps temporality isMonotonic)).2.get k = _ :=
        fun k => Json.get_ofFields k _ (by simp)
      have hpoints := elements_of (encodeData (.sum dps temporality isMonotonic)).2 "dataPoints"
        (dps.map encodeNumberDataPoint) (hget _)
      have htemporality := i32Field_of (encodeData (.sum dps temporality isMonotonic)).2
        "aggregationTemporality" temporality (hget _)
      have hmonotonic : (((encodeData (.sum dps temporality isMonotonic)).2.get
          "isMonotonic").bind Json.asBool).getD false = isMonotonic := by
        have hfield : (encodeData (.sum dps temporality isMonotonic)).2.get "isMonotonic" =
          encodeBool isMonotonic := hget _
        rw [hfield]
        cases isMonotonic <;> rfl
      change [] ++ decodeSum c (encodeMetric m) (encodeData (.sum dps temporality isMonotonic)).2 =
        _
      rw [decodeSum, hpoints, htemporality, hmonotonic, List.nil_append]
    | histogram dps temporality => rfl
    | exponentialHistogram dps temporality => rfl
    | summary dps => rfl

theorem decodeMetric_eq_iff (c : Context) (m : ProtoMetric) (h : PointsAgree m) :
    decodeMetric c (encodeMetric m) = normaliseMetric c m ↔ m.isReadable = true := by
  rw [decodeMetric_encode, normaliseMetric, ProtoMetric.isReadable]
  rw [PointsAgree] at h
  cases hd : m.data with
  | none => simp
  | some d =>
    rw [hd] at h
    cases d with
    | gauge dps => exact map_points_eq_iff c m .gauge dps h
    | sum dps temporality isMonotonic =>
      exact map_points_eq_iff c m (.sum isMonotonic temporality) dps h
    | histogram dps temporality => cases dps <;> simp
    | exponentialHistogram dps temporality => simp
    | summary dps => simp

theorem length_decodeMetric_le (c : Context) (m : ProtoMetric) :
    (decodeMetric c (encodeMetric m)).length ≤ (normaliseMetric c m).length := by
  rw [decodeMetric_encode, normaliseMetric]
  cases m.data with
  | none => simp
  | some d => cases d <;> simp

/-- The two decoders agree on a metrics request exactly when every metric is readable: no points
of histograms, and only points without a value or with a finite double. -/
theorem metrics_agree_iff (resourceMetrics : List ResourceMetrics)
    (h : MetricsAgree resourceMetrics) :
    decodeMetrics (encodeMetrics resourceMetrics) = normaliseMetrics resourceMetrics ↔
      ∀ m ∈ allItems resourceMetrics, m.isReadable = true := by
  have hpoints := (forall_walk _ resourceMetrics).mpr h.2
  rw [decodeMetrics, encodeMetrics, decodeWalk_encodeRequest _ _ _ _ _ h.1 (by simp) (by simp)
    (by simp), List.flatMap_map, normaliseMetrics,
    flatMap_eq_iff _ _ _ fun p _ => length_decodeMetric_le p.1 p.2, ← forall_walk]
  exact forall₂_congr fun p hp => decodeMetric_eq_iff p.1 p.2 (hpoints p hp)

def metricOf (data : MetricData) : ProtoMetric where
  name := ⟨"http.requests", by decide⟩
  description := Str.empty
  unit := ⟨"1", by decide⟩
  data := some data

def pointOf (value : NumberValue) : NumberDataPoint where
  attributes := serviceAttrs
  startTimeUnixNano := 5
  timeUnixNano := 9
  value := some value

def sumOf (value : NumberValue) : ProtoMetric := metricOf (.sum [pointOf value] 2 true)

theorem sumOf_agrees (value : NumberValue) : MetricsAgree (oneItem (sumOf value)) := by
  refine ⟨oneItem_agrees _, forall_oneItem _ _ fun dp hdp => ?_⟩
  cases List.mem_singleton.mp hdp
  exact serviceAttrs_agree

theorem metrics_agree_double :
    decodeMetrics (encodeMetrics (oneItem (sumOf (.asDouble ⟨0⟩)))) =
      normaliseMetrics (oneItem (sumOf (.asDouble ⟨0⟩))) :=
  (metrics_agree_iff (oneItem (sumOf (.asDouble ⟨0⟩))) (sumOf_agrees _)).mpr
    (forall_oneItem _ _ (by decide))

/-- The JSON path loses the value of an integer point. -/
theorem metrics_disagree_int : MetricsAgree (oneItem (sumOf (.asInt 3))) ∧
    (decodeMetrics (encodeMetrics (oneItem (sumOf (.asInt 3))))).map MetricPoint.valueInt =
      [none] ∧
    (normaliseMetrics (oneItem (sumOf (.asInt 3)))).map MetricPoint.valueInt = [some 3] :=
  ⟨sumOf_agrees _, rfl, rfl⟩

/-! ### Spans -/

/-- The decoders agree on the attributes of a span, its events and its links. -/
def SpanAgrees (s : ProtoSpan) : Prop :=
  AttrsAgree s.attributes ∧ (∀ e ∈ s.events.1, AttrsAgree e.attributes) ∧
    ∀ l ∈ s.links.1, AttrsAgree l.attributes

def SpansAgree (resourceSpans : List ResourceSpans) : Prop :=
  EnvelopeAgrees resourceSpans ∧ ∀ s ∈ allItems resourceSpans, SpanAgrees s

theorem decodeEvent_encode (e : ProtoEvent) (h : AttrsAgree e.attributes) :
    decodeEvent (encodeEvent e) = normaliseEvent e := by
  have hget : ∀ k, (encodeEvent e).get k = _ := fun k => Json.get_ofFields k _ (by simp)
  have htime := u64Field_of (encodeEvent e) "timeUnixNano" e.timeUnixNano (hget _)
  have hname := textField_of (encodeEvent e) "name" e.name (hget _)
  have hattrs := attrsField_of (encodeEvent e) "attributes" e.attributes (hget _) h
  rw [decodeEvent, htime, hname, hattrs, normaliseEvent]

theorem decodeLink_encode (l : ProtoLink) (h : AttrsAgree l.attributes) :
    decodeLink (encodeLink l) = .ok (normaliseLink l) := by
  have hget : ∀ k, (encodeLink l).get k = _ := fun k => Json.get_ofFields k _ (by simp)
  have htrace := idField16_of (encodeLink l) "traceId" l.traceId (hget _)
  have hspan := idField8_of (encodeLink l) "spanId" l.spanId (hget _)
  have hstate := textField_of (encodeLink l) "traceState" l.traceState (hget _)
  have hattrs := attrsField_of (encodeLink l) "attributes" l.attributes (hget _) h
  simp only [decodeLink, htrace, hspan, hstate, hattrs, normaliseLink]
  cases bytesToArray16 l.traceId with
  | none => rfl
  | some traceId =>
    cases bytesToArray8 l.spanId with
    | none => rfl
    | some spanId => rfl

theorem status_encode (status : Option ProtoStatus) :
    ((((status.map encodeStatus).bind fun s => (s.get "code").bind Json.asI64).getD 0).toInt32 =
      (status.map ProtoStatus.code).getD 0) ∧
    (((status.map encodeStatus).bind fun s => (s.get "message").bind Json.asStr).map
      Str.ofString).getD Str.empty = (status.map ProtoStatus.message).getD Str.empty := by
  cases status with
  | none => exact ⟨rfl, rfl⟩
  | some s =>
    have hget : ∀ k, (encodeStatus s).get k = _ := fun k => Json.get_ofFields k _ (by simp)
    exact ⟨i32Field_of (encodeStatus s) "code" s.code (hget _),
      textField_of (encodeStatus s) "message" s.message (hget _)⟩

theorem decodeSpan_encode (c : Context) (s : ProtoSpan) (h : SpanAgrees s) :
    decodeSpan c (encodeSpan s) = .ok (normaliseSpan c s) := by
  obtain ⟨hattributes, hevents, hlinks⟩ := h
  have hget : ∀ k, (encodeSpan s).get k = _ := fun k => Json.get_ofFields k _ (by simp)
  have htrace := idField16_of (encodeSpan s) "traceId" s.traceId (hget _)
  have hspan := idField8_of (encodeSpan s) "spanId" s.spanId (hget _)
  have hparent := idField8_of (encodeSpan s) "parentSpanId" s.parentSpanId (hget _)
  have hname := textField_of (encodeSpan s) "name" s.name (hget _)
  have hkind := i32Field_of (encodeSpan s) "kind" s.kind (hget _)
  have hstart := u64Field_of (encodeSpan s) "startTimeUnixNano" s.startTimeUnixNano (hget _)
  have hend := u64Field_of (encodeSpan s) "endTimeUnixNano" s.endTimeUnixNano (hget _)
  have hattrs := attrsField_of (encodeSpan s) "attributes" s.attributes (hget _) hattributes
  have hstatus : (encodeSpan s).get "status" = s.status.map encodeStatus := hget _
  have heventList : (elements (encodeSpan s) "events").map decodeEvent =
      s.events.1.map normaliseEvent := by
    rw [elements_of (encodeSpan s) "events" (s.events.1.map encodeEvent) (hget _), List.map_map,
      List.map_inj_left]
    exact fun e he => decodeEvent_encode e (hevents e he)
  have hlinkList : (elements (encodeSpan s) "links").mapM decodeLink =
      .ok (s.links.1.map normaliseLink) := by
    rw [elements_of (encodeSpan s) "links" (s.links.1.map encodeLink) (hget _), List.mapM_map]
    exact mapM_ok _ _ _ fun l hl => decodeLink_encode l (hlinks l hl)
  obtain ⟨hcode, hmessage⟩ := status_encode s.status
  simp only [decodeSpan, htrace, hspan, hparent, hname, hkind, hstart, hend, hattrs, hstatus,
    heventList, hlinkList, hcode, hmessage, normaliseSpan]
  cases bytesToArray16 s.traceId with
  | none => rfl
  | some traceId =>
    cases bytesToArray8 s.spanId with
    | none => rfl
    | some spanId =>
      rw [← reduceOption_map]
      rfl

/-- The two decoders agree on every trace request. -/
theorem spans_agree (resourceSpans : List ResourceSpans) (h : SpansAgree resourceSpans) :
    decodeSpans (encodeSpans resourceSpans) = .ok (normaliseSpans resourceSpans) := by
  have hspans := (forall_walk _ resourceSpans).mpr h.2
  have hmapM : ((walk resourceSpans).map fun p => (p.1, encodeSpan p.2)).mapM
      (fun p => decodeSpan p.1 p.2) =
        .ok ((walk resourceSpans).map fun p => normaliseSpan p.1 p.2) := by
    rw [List.mapM_map]
    exact mapM_ok _ _ _ fun p hp => decodeSpan_encode p.1 p.2 (hspans p hp)
  rw [decodeSpans, encodeSpans, decodeWalk_encodeRequest _ _ _ _ _ h.1 (by simp) (by simp)
    (by simp), hmapM, normaliseSpans, ← reduceOption_map]
  rfl

/-- A span that ends before it starts, with a link that is dropped. -/
def sampleSpan : ProtoSpan where
  traceId := ⟨List.replicate 16 255, by decide⟩
  spanId := ⟨List.replicate 8 16, by decide⟩
  parentSpanId := Vec.empty
  name := serviceName
  kind := 2
  startTimeUnixNano := 9
  endTimeUnixNano := 5
  attributes := serviceAttrs
  events := ⟨[⟨7, serviceName, serviceAttrs⟩], by decide⟩
  links := ⟨[⟨⟨[1, 2], by decide⟩, Vec.empty, Str.empty, serviceAttrs⟩], by decide⟩
  status := some ⟨serviceName, 1⟩

theorem sampleSpan_agrees : SpansAgree (oneItem sampleSpan) := by
  refine ⟨oneItem_agrees _, forall_oneItem _ _ ⟨serviceAttrs_agree, fun e he => ?_, fun l hl => ?_⟩⟩
  · cases List.mem_singleton.mp he
    exact serviceAttrs_agree
  · cases List.mem_singleton.mp hl
    exact serviceAttrs_agree

theorem spans_agree_sample : decodeSpans (encodeSpans (oneItem sampleSpan)) =
    .ok (normaliseSpans (oneItem sampleSpan)) :=
  spans_agree (oneItem sampleSpan) sampleSpan_agrees

end InfraLens.Otlp
