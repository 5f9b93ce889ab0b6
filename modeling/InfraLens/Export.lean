import InfraLens.Ingest
import InfraLens.OtlpAgreement
import Mathlib.Algebra.Order.BigOperators.Group.List

/-! The three gRPC export services (grpc.rs): a request is normalised, submitted to the pipeline
and answered with a count of rejected items. -/
namespace InfraLens.Ingest
open LibBincode LibMap Model Otlp Storage

inductive IngestError where
  | bufferFull
  | storage (error : String)
  | normalisation (reason : String)

def IngestError.isRetriable : IngestError → Bool
  | .bufferFull => true
  | _ => false

def IngestError.message : IngestError → String
  | .bufferFull => "back-pressure: ingest buffer full"
  | .storage error => "storage error: " ++ error
  | .normalisation reason => "normalisation error: " ++ reason

/-- The status of a failed call. -/
inductive Status where
  | resourceExhausted (message : String)
  | internal (message : String)

structure PartialSuccess where
  rejected : Int64
  errorMessage : String

structure ExportResponse where
  partialSuccess : Option PartialSuccess

section Services
variable (bufferDepth : Nat) (closed : Bool) (s : Pipeline)

/-- `submit` with its result. A channel whose receiver is gone takes nothing either. -/
def submitResult (batch : IngestBatch) : Except IngestError Unit × Pipeline :=
  if closed then (.error .bufferFull, s)
  else if s.channel.length < bufferDepth then (.ok (), s.submit bufferDepth batch)
  else (.error .bufferFull, s)

/-- The answer of a service once its request is a batch. -/
def exportBatch (batch : IngestBatch) : Except Status ExportResponse × Pipeline :=
  match submitResult bufferDepth closed s batch with
  | (.ok _, s') => (.ok ⟨some ⟨0, ""⟩⟩, s')
  | (.error e, s') =>
    if e.isRetriable then (.error (.resourceExhausted e.message), s')
    else (.error (.internal e.message), s')

def exportLogs (req : List ResourceLogs) : Except Status ExportResponse × Pipeline :=
  exportBatch bufferDepth closed s (.logs (normaliseLogs req))

def exportMetrics (req : List ResourceMetrics) : Except Status ExportResponse × Pipeline :=
  exportBatch bufferDepth closed s (.metrics (normaliseMetrics req))

def exportTraces (req : List ResourceSpans) : Except Status ExportResponse × Pipeline :=
  exportBatch bufferDepth closed s (.spans (normaliseSpans req))

end Services

/-! ### What was sent and what was taken -/

def Pipeline.queued (s : Pipeline) : List Record := s.channel.flatMap IngestBatch.records

def ExportResponse.rejected (r : ExportResponse) : Int :=
  (r.partialSuccess.map fun p => p.rejected.toInt).getD 0

/-- The records handed over between two states and the rejected ones are all that were sent. -/
def Accounted (s s' : Pipeline) (r : ExportResponse) (sent : Nat) : Prop :=
  (s'.queued.length : Int) - s.queued.length + r.rejected = sent

def pointCount (m : ProtoMetric) : Nat :=
  match m.data with
  | some (.gauge dps) => dps.length
  | some (.sum dps _ _) => dps.length
  | some (.histogram dps _) => dps.length
  | some (.exponentialHistogram dps _) => dps.length
  | some (.summary dps) => dps.length
  | none => 0

def isKept (m : ProtoMetric) : Bool :=
  match m.data with
  | some (.exponentialHistogram dps _) => dps.isEmpty
  | some (.summary dps) => dps.isEmpty
  | _ => true

theorem exportBatch_ok (bufferDepth : Nat) (closed : Bool) (s s' : Pipeline) (batch : IngestBatch)
    (r : ExportResponse) (h : exportBatch bufferDepth closed s batch = (.ok r, s')) :
    r.rejected = 0 ∧ s'.queued = s.queued ++ batch.records := by
  rw [exportBatch, submitResult] at h
  split at h
  next heq =>
    split at heq
    next => cases heq
    next =>
      split at heq
      next hroom =>
        cases heq
        cases h
        refine ⟨rfl, ?_⟩
        simp [Pipeline.queued, Pipeline.submit, hroom]
      next => cases heq
  next heq =>
    split at h
    · cases h
    · cases h

theorem accounted_iff (bufferDepth : Nat) (closed : Bool) (s s' : Pipeline) (batch : IngestBatch)
    (r : ExportResponse) (sent : Nat)
    (h : exportBatch bufferDepth closed s batch = (.ok r, s')) :
    Accounted s s' r sent ↔ batch.records.length = sent := by
  obtain ⟨hr, hw⟩ := exportBatch_ok bufferDepth closed s s' batch r h
  rw [Accounted, hr, hw, List.length_append]
  omega

/-! ### What the normalizer keeps -/

theorem sum_map_eq_iff {α : Type} (f g : α → Nat) (xs : List α) (h : ∀ x, f x ≤ g x) :
    (xs.map f).sum = (xs.map g).sum ↔ ∀ x ∈ xs, f x = g x := by
  have hle : ∀ ys : List α, (ys.map f).sum ≤ (ys.map g).sum :=
    fun ys => List.sum_le_sum fun x _ => h x
  induction xs with
  | nil => simp
  | cons x xs ih =>
    have hx := h x
    have hxs := hle xs
    have hsplit : f x + (xs.map f).sum = g x + (xs.map g).sum ↔
        f x = g x ∧ (xs.map f).sum = (xs.map g).sum := by omega
    rw [List.map_cons, List.map_cons, List.sum_cons, List.sum_cons, List.forall_mem_cons, hsplit]
    exact and_congr_right' ih

theorem length_normaliseMetric (c : Context) (m : ProtoMetric) :
    (normaliseMetric c m).length ≤ pointCount m ∧
      ((normaliseMetric c m).length = pointCount m ↔ isKept m = true) := by
  rw [normaliseMetric, pointCount, isKept]
  cases m.data with
  | none => simp
  | some d =>
    cases d with
    | gauge dps => simp
    | sum dps temporality isMonotonic => simp
    | histogram dps temporality => simp
    | exponentialHistogram dps temporality => cases dps <;> simp
    | summary dps => cases dps <;> simp

theorem length_normaliseMetrics_iff (req : List ResourceMetrics) :
    (normaliseMetrics req).length = ((allItems req).map pointCount).sum ↔
      ∀ m ∈ allItems req, isKept m = true := by
  rw [normaliseMetrics, List.length_flatMap, ← walk_snd, List.map_map, Function.comp_def,
    sum_map_eq_iff _ _ _ fun p : Context × ProtoMetric => (length_normaliseMetric p.1 p.2).1,
    List.forall_mem_map]
  exact forall₂_congr fun p _ => (length_normaliseMetric p.1 p.2).2

theorem normaliseSpan_isSome (c : Context) (s : ProtoSpan) :
    (normaliseSpan c s).isSome ↔ s.traceId.1.length = 16 ∧ s.spanId.1.length = 8 := by
  rw [normaliseSpan, bytesToArray16, bytesToArray8, bytesToArray, bytesToArray]
  by_cases ht : s.traceId.1.length = 16
  · by_cases hs : s.spanId.1.length = 8
    · rw [dif_pos ht, dif_pos hs]
      exact iff_of_true rfl ⟨ht, hs⟩
    · simp [ht, hs]
  · simp [ht]

theorem length_normaliseSpans_iff (req : List ResourceSpans) :
    (normaliseSpans req).length = (allItems req).length ↔
      ∀ s ∈ allItems req, s.traceId.1.length = 16 ∧ s.spanId.1.length = 8 := by
  rw [normaliseSpans, ← walk_snd, List.length_map, List.filterMap_length_eq_length,
    List.forall_mem_map]
  exact forall₂_congr fun p _ => normaliseSpan_isSome p.1 p.2

section Accounting
variable (bufferDepth : Nat) (closed : Bool) (s s' : Pipeline) (r : ExportResponse)

/-- Logs answered with Ok are always accounted for; metrics exactly when there are no points of
exponential histograms or summaries; spans exactly when all ids have their proper lengths. -/
theorem export_accounting_iff :
    (∀ req, exportLogs bufferDepth closed s req = (.ok r, s') →
        Accounted s s' r (allItems req).length) ∧
      (∀ req, exportMetrics bufferDepth closed s req = (.ok r, s') →
        (Accounted s s' r ((allItems req).map pointCount).sum ↔
          ∀ m ∈ allItems req, isKept m = true)) ∧
      ∀ req, exportTraces bufferDepth closed s req = (.ok r, s') →
        (Accounted s s' r (allItems req).length ↔
          ∀ span ∈ allItems req, span.traceId.1.length = 16 ∧ span.spanId.1.length = 8) := by
  refine ⟨fun req h => ?_, fun req h => ?_, fun req h => ?_⟩
  · refine (accounted_iff bufferDepth closed s s' _ r _ h).mpr ?_
    rw [IngestBatch.records, List.length_map, normaliseLogs, List.length_map, ← walk_snd,
      List.length_map]
  · rw [accounted_iff bufferDepth closed s s' _ r _ h, IngestBatch.records, List.length_map,
      length_normaliseMetrics_iff]
  · rw [accounted_iff bufferDepth closed s s' _ r _ h, IngestBatch.records, List.length_map,
      length_normaliseSpans_iff]

end Accounting

def freshPipeline : Pipeline := Pipeline.new defaultConfig

def accepting : ExportResponse := ⟨some ⟨0, ""⟩⟩

theorem export_accounting_samples :
    Accounted freshPipeline (exportLogs 10 false freshPipeline (oneItem (logAt 5 7))).2
        accepting 1 ∧
      Accounted freshPipeline
        (exportMetrics 10 false freshPipeline (oneItem (sumOf (.asInt 3)))).2 accepting 1 ∧
      Accounted freshPipeline (exportTraces 10 false freshPipeline (oneItem sampleSpan)).2
        accepting 1 :=
  ⟨(export_accounting_iff 10 false freshPipeline _ accepting).1 (oneItem (logAt 5 7)) rfl,
    ((export_accounting_iff 10 false freshPipeline _ accepting).2.1
      (oneItem (sumOf (.asInt 3))) rfl).mpr (forall_oneItem _ _ rfl),
    ((export_accounting_iff 10 false freshPipeline _ accepting).2.2 (oneItem sampleSpan) rfl).mpr
      (forall_oneItem _ _ ⟨rfl, rfl⟩)⟩

def summaryMetric : ProtoMetric := metricOf (.summary [⟨serviceAttrs, 5, 9, 3⟩])

/-- The point of a summary is dropped, as is a span without a trace id; nothing is rejected. -/
theorem export_unaccounted :
    (exportMetrics 10 false freshPipeline (oneItem summaryMetric)).1 = .ok accepting ∧
      ¬ Accounted freshPipeline
        (exportMetrics 10 false freshPipeline (oneItem summaryMetric)).2 accepting
        (((allItems (oneItem summaryMetric)).map pointCount).sum) ∧
      (exportTraces 10 false freshPipeline
        (oneItem { sampleSpan with traceId := Vec.empty })).1 = .ok accepting ∧
      ¬ Accounted freshPipeline (exportTraces 10 false freshPipeline
        (oneItem { sampleSpan with traceId := Vec.empty })).2 accepting 1 := by
  refine ⟨rfl, ?_, rfl, ?_⟩
  · unfold Accounted
    decide
  · unfold Accounted
    decide

end InfraLens.Ingest
