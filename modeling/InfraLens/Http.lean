import InfraLens.Export

/-! The front of the ingest service: the OTLP/HTTP handlers (http.rs) beside the gRPC services, all
submitting to one pipeline while its writer task takes batches from it. -/
namespace InfraLens.Ingest
open LibRun Model Otlp Storage

/-! ### The handlers -/

inductive StatusCode where
  | ok
  | badRequest
  | unsupportedMediaType
  | tooManyRequests
  | internalServerError
  deriving DecidableEq

/-- A response, with the content type its handler sets. The default protobuf message has no
bytes. -/
structure HttpResponse where
  status : StatusCode
  contentType : Option String
  body : String

def contentTypeProto : String := "application/x-protobuf"

def contentTypeJson : String := "application/json"

/-- `HeaderValue::to_str`: visible ASCII, spaces and tabs. -/
def headerText (bytes : List UInt8) : Option (List Char) :=
  if bytes.all fun b => (32 ≤ b && b < 127) || b == 9 then
    some (bytes.map fun b => Char.ofNat b.toNat)
  else none

/-- `content_type`: the empty text for no header, or for one that is no text. -/
def contentType (header : Option (List UInt8)) : List Char := (header.bind headerText).getD []

def startsWith (text : List Char) (start : String) : Bool := start.toList.isPrefixOf text

/-- What serde_json and prost make of a body; their errors are texts. -/
structure Wire where
  fromSlice : List UInt8 → Except String Value
  logs : List UInt8 → Except String (List ResourceLogs)
  metrics : List UInt8 → Except String (List ResourceMetrics)
  spans : List UInt8 → Except String (List ResourceSpans)

/-- What a handler has before it submits. A decoder that panics ends the connection. -/
inductive Reading where
  | batch (batch : IngestBatch)
  | refused (response : HttpResponse)
  | panicked

/-- The first half of a handler, by the two decoders of its signal. -/
def readBody {μ : Type} (fromSlice : List UInt8 → Except String Value)
    (decodeJson : Value → Except Panic IngestBatch) (decode : List UInt8 → Except String μ)
    (normalise : μ → IngestBatch) (ct : List Char) (body : List UInt8) : Reading :=
  if startsWith ct contentTypeJson then
    match fromSlice body with
    | .ok v => match decodeJson v with
      | .ok batch => .batch batch
      | .error _ => .panicked
    | .error e => .refused ⟨.badRequest, none, e⟩
  else if startsWith ct contentTypeProto then
    match decode body with
    | .ok r => .batch (normalise r)
    | .error e => .refused ⟨.badRequest, none, e⟩
  else
    .refused ⟨.unsupportedMediaType, none,
      "Content-Type must be application/json or application/x-protobuf"⟩

/-- The second half: the response to what `submit` returned. -/
def respond (ct : List Char) : Except IngestError Unit → HttpResponse
  | .ok _ =>
    if startsWith ct contentTypeJson then
      ⟨.ok, some contentTypeJson, "\x7b\"partialSuccess\":\x7b\x7d\x7d"⟩
    else ⟨.ok, some contentTypeProto, ""⟩
  | .error e =>
    if e.isRetriable then ⟨.tooManyRequests, none, e.message⟩
    else ⟨.internalServerError, none, e.message⟩

section Handlers
variable (wire : Wire) (ct : List Char) (body : List UInt8)

def readLogs : Reading :=
  readBody wire.fromSlice (fun v => (decodeLogs v).map .logs) wire.logs
    (fun r => .logs (normaliseLogs r)) ct body

def readMetrics : Reading :=
  readBody wire.fromSlice (fun v => .ok (.metrics (decodeMetrics v))) wire.metrics
    (fun r => .metrics (normaliseMetrics r)) ct body

def readTraces : Reading :=
  readBody wire.fromSlice (fun v => (decodeSpans v).map .spans) wire.spans
    (fun r => .spans (normaliseSpans r)) ct body

/-- `handle_logs`, `handle_metrics` and `handle_traces`, by their routes. -/
def readRequest : SignalType → Reading
  | .log => readLogs wire ct body
  | .metric => readMetrics wire ct body
  | .span => readTraces wire ct body

end Handlers

/-! ### Requests and replies -/

/-- A request as its handler is given it. Before that axum has taken in the body, up to its limit,
and tonic has decoded the message; what they turn away themselves is no request here. -/
inductive Request where
  | http (route : SignalType) (header : Option (List UInt8)) (body : List UInt8)
  | grpcLogs (req : List ResourceLogs)
  | grpcMetrics (req : List ResourceMetrics)
  | grpcTraces (req : List ResourceSpans)

inductive Reply where
  | http (response : HttpResponse)
  | grpc (result : Except Status ExportResponse)
  | disconnected

/-- What a reply tells its client. -/
inductive Verdict where
  | accepted
  | overloaded
  | refused
  | failed
  | crashed
  deriving DecidableEq

def Reply.verdict : Reply → Verdict
  | .http r => match r.status with
    | .ok => .accepted
    | .tooManyRequests => .overloaded
    | .internalServerError => .failed
    | _ => .refused
  | .grpc (.ok _) => .accepted
  | .grpc (.error (.resourceExhausted _)) => .overloaded
  | .grpc (.error (.internal _)) => .failed
  | .disconnected => .crashed

section Serving
variable (wire : Wire) (bufferDepth : Nat) (closed : Bool) (s : Pipeline)

def serve : Request → Reply × Pipeline
  | .http route header body =>
    match readRequest wire (contentType header) body route with
    | .batch batch =>
      let (result, s') := submitResult bufferDepth closed s batch
      (.http (respond (contentType header) result), s')
    | .refused response => (.http response, s)
    | .panicked => (.disconnected, s)
  | .grpcLogs req => (exportLogs bufferDepth closed s req).map .grpc id
  | .grpcMetrics req => (exportMetrics bufferDepth closed s req).map .grpc id
  | .grpcTraces req => (exportTraces bufferDepth closed s req).map .grpc id

/-- The batch a request stands for, if it can be read. -/
def Request.batch? : Request → Option IngestBatch
  | .http route header body => match readRequest wire (contentType header) body route with
    | .batch batch => some batch
    | _ => none
  | .grpcLogs req => some (.logs (normaliseLogs req))
  | .grpcMetrics req => some (.metrics (normaliseMetrics req))
  | .grpcTraces req => some (.spans (normaliseSpans req))

def Wire.decodes : SignalType → List UInt8 → Bool
  | .log, body => (wire.logs body).isOk
  | .metric, body => (wire.metrics body).isOk
  | .span, body => (wire.spans body).isOk

/-- Whether the JSON decoder of a route cuts an id inside a character. -/
def cutsId : SignalType → Value → Bool
  | .log, v => !(decodeLogs v).isOk
  | .metric, _ => false
  | .span, v => !(decodeSpans v).isOk

/-- The content type is neither of the two, or the body is not what it says. -/
def Request.Unreadable : Request → Prop
  | .http route header body =>
    if startsWith (contentType header) contentTypeJson then (wire.fromSlice body).isOk = false
    else if startsWith (contentType header) contentTypeProto then wire.decodes route body = false
    else True
  | _ => False

/-- The body is JSON, with an id on which its decoder panics. -/
def Request.Panics : Request → Prop
  | .http route header body => startsWith (contentType header) contentTypeJson = true ∧
      ∃ v, wire.fromSlice body = .ok v ∧ cutsId route v = true
  | _ => False

end Serving

/-! ### The running service -/

/-- The pipeline, whether its writer task has ended, every exchange in order, the batches the task
has taken, and those left in the channel when it ended. -/
structure Front where
  pipeline : Pipeline
  ended : Bool
  log : List (Request × Reply)
  received : List IngestBatch
  dropped : List IngestBatch

def Front.new (cfg : Config) : Front := ⟨Pipeline.new cfg, false, [], [], []⟩

inductive FrontAct where
  | request (q : Request)
  | receive
  | call
  | engine (a : Action Unit Record)
  | stop

def isWriterStep : Action Unit Record → Bool
  | .begin _ _ | .fetch _ | .append _ | .insert _ | .test _ | .replace _ | .enqueue _
  | .finish _ => true
  | _ => false

section Steps
variable (wire : Wire) (cfg : Config) (bufferDepth : Nat)

def Front.step (s : Front) : FrontAct → Option Front
  | .request q =>
    let (reply, p) := serve wire bufferDepth s.ended s.pipeline q
    some { s with pipeline := p, log := s.log ++ [(q, reply)] }
  | .receive =>
    if s.ended then none
    else s.pipeline.receive.map fun p =>
      { s with pipeline := p, received := s.received ++ p.hand.toList }
  | .call =>
    if s.ended then none else s.pipeline.call.map fun p => { s with pipeline := p }
  | .engine a =>
    if s.ended && isWriterStep a then none
    else (s.pipeline.advance cfg a).map fun p => { s with pipeline := p }
  | .stop =>
    -- the receiver goes with the task, by a panic of it or with the runtime
    some { s with
      pipeline := { s.pipeline with channel := [] }
      ended := true
      dropped := s.dropped ++ s.pipeline.channel }

end Steps

/-! ### One request -/

section Serving
variable (wire : Wire) (bufferDepth : Nat) (closed : Bool) (s : Pipeline)

/-- What one request does. -/
inductive Serves (q : Request) : Verdict → Pipeline → Prop where
  | accepted (batch : IngestBatch) (hq : q.batch? wire = some batch)
      (hclear : ¬ q.Unreadable wire ∧ ¬ q.Panics wire) (hopen : closed = false)
      (hroom : s.channel.length < bufferDepth) : Serves q .accepted (s.submit bufferDepth batch)
  | overloaded (hclear : ¬ q.Unreadable wire ∧ ¬ q.Panics wire)
      (hfull : closed = true ∨ ¬ s.channel.length < bufferDepth) : Serves q .overloaded s
  | refused (hq : q.Unreadable wire) (hno : ¬ q.Panics wire) : Serves q .refused s
  | crashed (hno : ¬ q.Unreadable wire) (hq : q.Panics wire) : Serves q .crashed s

theorem submitResult_cases (batch : IngestBatch) :
    (closed = false ∧ s.channel.length < bufferDepth ∧
      submitResult bufferDepth closed s batch = (.ok (), s.submit bufferDepth batch)) ∨
    ((closed = true ∨ ¬ s.channel.length < bufferDepth) ∧
      submitResult bufferDepth closed s batch = (.error .bufferFull, s)) := by
  rw [submitResult]
  cases closed with
  | true => exact .inr ⟨.inl rfl, rfl⟩
  | false =>
    by_cases hroom : s.channel.length < bufferDepth
    · rw [if_pos hroom]
      exact .inl ⟨rfl, hroom, rfl⟩
    · rw [if_neg hroom]
      exact .inr ⟨.inr hroom, rfl⟩

theorem respond_verdict (ct : List Char) :
    (Reply.http (respond ct (.ok ()))).verdict = .accepted ∧
      (Reply.http (respond ct (.error .bufferFull))).verdict = .overloaded := by
  refine ⟨?_, rfl⟩
  rw [respond]
  split <;> rfl

theorem serves_batch (q : Request) (batch : IngestBatch) (hq : q.batch? wire = some batch)
    (hclear : ¬ q.Unreadable wire ∧ ¬ q.Panics wire)
    (reply : Except IngestError Unit → Reply) (hok : (reply (.ok ())).verdict = .accepted)
    (hfull : (reply (.error .bufferFull)).verdict = .overloaded) :
    Serves wire bufferDepth closed s q
      (reply (submitResult bufferDepth closed s batch).1).verdict
      (submitResult bufferDepth closed s batch).2 := by
  obtain ⟨hopen, hroom, hsubmit⟩ | ⟨hno, hsubmit⟩ :=
    submitResult_cases bufferDepth closed s batch
  · rw [hsubmit, hok]
    exact .accepted batch hq hclear hopen hroom
  · rw [hsubmit, hfull]
    exact .overloaded hclear hno

def grpcReply : Except IngestError Unit → Reply
  | .ok _ => .grpc (.ok ⟨some ⟨0, ""⟩⟩)
  | .error e =>
    .grpc (.error (if e.isRetriable then .resourceExhausted e.message else .internal e.message))

theorem exportBatch_reply (batch : IngestBatch) :
    (exportBatch bufferDepth closed s batch).map Reply.grpc id =
      (grpcReply (submitResult bufferDepth closed s batch).1,
        (submitResult bufferDepth closed s batch).2) := by
  obtain ⟨-, -, hsubmit⟩ | ⟨-, hsubmit⟩ := submitResult_cases bufferDepth closed s batch
  · rw [exportBatch, hsubmit]
    rfl
  · rw [exportBatch, hsubmit]
    rfl

theorem serves_export (q : Request) (batch : IngestBatch) (hq : q.batch? wire = some batch)
    (hclear : ¬ q.Unreadable wire ∧ ¬ q.Panics wire)
    (h : serve wire bufferDepth closed s q =
      (exportBatch bufferDepth closed s batch).map Reply.grpc id) :
    Serves wire bufferDepth closed s q (serve wire bufferDepth closed s q).1.verdict
      (serve wire bufferDepth closed s q).2 := by
  rw [h, exportBatch_reply]
  exact serves_batch wire bufferDepth closed s q batch hq hclear grpcReply rfl rfl

def Reading.Tells (unreadable panics : Prop) : Reading → Prop
  | .batch _ => ¬ unreadable ∧ ¬ panics
  | .refused response => (Reply.http response).verdict = .refused ∧ unreadable ∧ ¬ panics
  | .panicked => ¬ unreadable ∧ panics

theorem readBody_tells {μ : Type} (fromSlice : List UInt8 → Except String Value)
    (decodeJson : Value → Except Panic IngestBatch) (decode : List UInt8 → Except String μ)
    (normalise : μ → IngestBatch) (ct : List Char) (body : List UInt8) :
    (readBody fromSlice decodeJson decode normalise ct body).Tells
      (if startsWith ct contentTypeJson then (fromSlice body).isOk = false
        else if startsWith ct contentTypeProto then (decode body).isOk = false else True)
      (startsWith ct contentTypeJson = true ∧
        ∃ v, fromSlice body = .ok v ∧ (!(decodeJson v).isOk) = true) := by
  rw [readBody]
  by_cases hjson : startsWith ct contentTypeJson = true
  · simp only [hjson, if_true, true_and]
    cases hbody : fromSlice body with
    | error e => exact ⟨rfl, rfl, fun ⟨_, hv, _⟩ => (by cases hv)⟩
    | ok v =>
      simp only [Except.ok.injEq, exists_eq_left']
      cases hv : decodeJson v with
      | ok batch => exact ⟨Bool.noConfusion, Bool.noConfusion⟩
      | error e => exact ⟨Bool.noConfusion, rfl⟩
  · simp only [hjson, Bool.false_eq_true, if_false, false_and]
    by_cases hproto : startsWith ct contentTypeProto = true
    · simp only [hproto, if_true]
      cases hbody : decode body with
      | error e => exact ⟨rfl, rfl, not_false⟩
      | ok r => exact ⟨Bool.noConfusion, not_false⟩
    · simp only [hproto, Bool.false_eq_true, if_false]
      exact ⟨rfl, trivial, not_false⟩

theorem isOk_map {ε α β : Type} (x : Except ε α) (f : α → β) : (x.map f).isOk = x.isOk := by
  cases x <;> rfl

theorem readRequest_tells (route : SignalType) (header : Option (List UInt8))
    (body : List UInt8) :
    (readRequest wire (contentType header) body route).Tells
      ((Request.http route header body).Unreadable wire)
      ((Request.http route header body).Panics wire) := by
  cases route with
  | log =>
    have htells := readBody_tells wire.fromSlice (fun v => (decodeLogs v).map .logs) wire.logs
      (fun r => .logs (normaliseLogs r)) (contentType header) body
    simp only [isOk_map] at htells
    exact htells
  | metric =>
    exact readBody_tells wire.fromSlice (fun v => .ok (.metrics (decodeMetrics v))) wire.metrics
      (fun r => .metrics (normaliseMetrics r)) (contentType header) body
  | span =>
    have htells := readBody_tells wire.fromSlice (fun v => (decodeSpans v).map .spans) wire.spans
      (fun r => .spans (normaliseSpans r)) (contentType header) body
    simp only [isOk_map] at htells
    exact htells

theorem serves_request (q : Request) :
    Serves wire bufferDepth closed s q (serve wire bufferDepth closed s q).1.verdict
      (serve wire bufferDepth closed s q).2 := by
  cases q with
  | http route header body =>
    have htells := readRequest_tells wire route header body
    rw [serve]
    cases hread : readRequest wire (contentType header) body route with
    | batch batch =>
      rw [hread] at htells
      obtain ⟨hok, hfull⟩ := respond_verdict (contentType header)
      exact serves_batch wire bufferDepth closed s _ batch (by rw [Request.batch?, hread]) htells
        (fun result => .http (respond (contentType header) result)) hok hfull
    | refused response =>
      rw [hread] at htells
      obtain ⟨hverdict, hunreadable, hno⟩ := htells
      dsimp only
      rw [hverdict]
      exact .refused hunreadable hno
    | panicked =>
      rw [hread] at htells
      exact .crashed htells.1 htells.2
  | grpcLogs req => exact serves_export wire bufferDepth closed s _ _ rfl ⟨not_false, not_false⟩ rfl
  | grpcMetrics req =>
    exact serves_export wire bufferDepth closed s _ _ rfl ⟨not_false, not_false⟩ rfl
  | grpcTraces req =>
    exact serves_export wire bufferDepth closed s _ _ rfl ⟨not_false, not_false⟩ rfl

end Serving

/-! ### Whole runs -/

/-- The batches of the requests that were answered with success, in order. -/
def accepted (wire : Wire) (log : List (Request × Reply)) : List IngestBatch :=
  log.flatMap fun x => if x.2.verdict = .accepted then (x.1.batch? wire).toList else []

/-- A reply tells whether the request could be read, and never blames the server; only an id that
its decoder cannot slice ends a connection without one. -/
def Candid (wire : Wire) (x : Request × Reply) : Prop :=
  x.2.verdict ≠ .failed ∧ (x.2.verdict = .refused ↔ x.1.Unreadable wire) ∧
    (x.2.verdict = .crashed ↔ x.1.Panics wire)

/-- The account of the batches: each accepted one was taken by the writer task, is waiting, or was
dropped with the task. -/
structure Upright (wire : Wire) (bufferDepth : Nat) (s : Front) : Prop where
  batches : accepted wire s.log = s.received ++ s.dropped ++ s.pipeline.channel
  room : s.pipeline.channel.length ≤ bufferDepth
  running : s.ended = false → s.dropped = []
  ended : s.ended = true → s.pipeline.channel = []
  candid : ∀ x ∈ s.log, Candid wire x

section Runs
variable (wire : Wire) (cfg : Config) (bufferDepth : Nat) (s t : Front)

theorem upright_new : Upright wire bufferDepth (Front.new cfg) :=
  ⟨rfl, Nat.zero_le _, fun _ => rfl, fun h => absurd h Bool.false_ne_true,
    fun _ hx => absurd hx List.not_mem_nil⟩

theorem accepted_append (log : List (Request × Reply)) (x : Request × Reply) :
    accepted wire (log ++ [x]) = accepted wire log ++
      if x.2.verdict = .accepted then (x.1.batch? wire).toList else [] := by
  simp [accepted]

theorem candid_append (log : List (Request × Reply)) (x : Request × Reply)
    (hlog : ∀ y ∈ log, Candid wire y) (hx : Candid wire x) : ∀ y ∈ log ++ [x], Candid wire y := by
  intro y hy
  cases List.mem_append.mp hy with
  | inl hold => exact hlog y hold
  | inr hlast =>
    rw [List.mem_singleton.mp hlast]
    exact hx

theorem upright_turnedAway (hs : Upright wire bufferDepth s) (q : Request) (reply : Reply)
    (hverdict : reply.verdict ≠ .accepted) (hcandid : Candid wire (q, reply)) :
    Upright wire bufferDepth { s with log := s.log ++ [(q, reply)] } := by
  refine ⟨?_, hs.room, hs.running, hs.ended, candid_append wire s.log _ hs.candid hcandid⟩
  rw [accepted_append, hs.batches, if_neg hverdict, List.append_nil]

theorem upright_taken (hs : Upright wire bufferDepth s) (q : Request) (reply : Reply)
    (batch : IngestBatch) (hverdict : reply.verdict = .accepted) (hq : q.batch? wire = some batch)
    (hclear : ¬ q.Unreadable wire ∧ ¬ q.Panics wire)
    (hopen : s.ended = false) (hroom : s.pipeline.channel.length < bufferDepth) :
    Upright wire bufferDepth
      { s with pipeline := s.pipeline.submit bufferDepth batch, log := s.log ++ [(q, reply)] } := by
  have hchannel : (s.pipeline.submit bufferDepth batch).channel =
      s.pipeline.channel ++ [batch] := by
    rw [Pipeline.submit, if_pos hroom]
  refine ⟨?_, ?_, hs.running, fun hended => ?_, candid_append wire s.log _ hs.candid ?_⟩
  · rw [accepted_append, hs.batches, if_pos hverdict, hq, hchannel, ← List.append_assoc]
    rfl
  · rw [hchannel, List.length_append]
    exact hroom
  · rw [hopen] at hended
    cases hended
  · rw [Candid, hverdict]
    exact ⟨by decide, iff_of_false (by decide) hclear.1, iff_of_false (by decide) hclear.2⟩

theorem upright_request (hs : Upright wire bufferDepth s) (q : Request) (reply : Reply)
    (p : Pipeline) (h : Serves wire bufferDepth s.ended s.pipeline q reply.verdict p) :
    Upright wire bufferDepth { s with pipeline := p, log := s.log ++ [(q, reply)] } := by
  generalize hv : reply.verdict = v at h
  cases h with
  | accepted batch hq hclear hopen hroom =>
    exact upright_taken wire bufferDepth s hs q reply batch hv hq hclear hopen hroom
  | overloaded hclear hfull =>
    refine upright_turnedAway wire bufferDepth s hs q reply (by rw [hv]; decide) ?_
    rw [Candid, hv]
    exact ⟨by decide, iff_of_false (by decide) hclear.1, iff_of_false (by decide) hclear.2⟩
  | refused hq hno =>
    refine upright_turnedAway wire bufferDepth s hs q reply (by rw [hv]; decide) ?_
    rw [Candid, hv]
    exact ⟨by decide, iff_of_true rfl hq, iff_of_false (by decide) hno⟩
  | crashed hno hq =>
    refine upright_turnedAway wire bufferDepth s hs q reply (by rw [hv]; decide) ?_
    rw [Candid, hv]
    exact ⟨by decide, iff_of_false (by decide) hno, iff_of_true rfl hq⟩

theorem upright_channel (hs : Upright wire bufferDepth s) (p : Pipeline)
    (h : p.channel = s.pipeline.channel) : Upright wire bufferDepth { s with pipeline := p } := by
  refine ⟨?_, ?_, hs.running, fun hended => ?_, hs.candid⟩
  · rw [h]
    exact hs.batches
  · rw [h]
    exact hs.room
  · rw [h]
    exact hs.ended hended

theorem upright_receive (hs : Upright wire bufferDepth s) (p : Pipeline)
    (hrunning : s.ended = false) (h : s.pipeline.receive = some p) :
    Upright wire bufferDepth
      { s with pipeline := p, received := s.received ++ p.hand.toList } := by
  have hdropped := hs.running hrunning
  have hbatches := hs.batches
  have hroom := hs.room
  rw [Pipeline.receive] at h
  split at h
  · next batch channel hhand hpc hchannel =>
    cases h
    rw [hdropped, hchannel] at hbatches
    rw [hchannel] at hroom
    refine ⟨?_, Nat.le_of_succ_le hroom, hs.running, fun hended => ?_, hs.candid⟩
    · rw [hbatches, hdropped]
      simp
    · rw [hrunning] at hended
      cases hended
  · cases h

theorem upright_step (a : FrontAct) (hs : Upright wire bufferDepth s)
    (h : s.step wire cfg bufferDepth a = some t) : Upright wire bufferDepth t := by
  cases a with
  | request q =>
    cases h
    exact upright_request wire bufferDepth s hs q _ _
      (serves_request wire bufferDepth s.ended s.pipeline q)
  | receive =>
    rw [Front.step] at h
    split at h
    · cases h
    · next hrunning =>
      obtain ⟨p, hp, rfl⟩ := Option.map_eq_some_iff.mp h
      exact upright_receive wire bufferDepth s hs p (Bool.eq_false_of_not_eq_true hrunning) hp
  | call =>
    rw [Front.step] at h
    split at h
    · cases h
    · obtain ⟨p, hp, rfl⟩ := Option.map_eq_some_iff.mp h
      refine upright_channel wire bufferDepth s hs p ?_
      rw [Pipeline.call] at hp
      split at hp
      · obtain ⟨e, -, rfl⟩ := Option.map_eq_some_iff.mp hp
        rfl
      · cases hp
  | engine a =>
    rw [Front.step] at h
    split at h
    · cases h
    · obtain ⟨p, hp, rfl⟩ := Option.map_eq_some_iff.mp h
      refine upright_channel wire bufferDepth s hs p ?_
      rw [Pipeline.advance] at hp
      split at hp
      · cases hp
      · obtain ⟨e, -, rfl⟩ := Option.map_eq_some_iff.mp hp
        rfl
  | stop =>
    cases h
    refine ⟨?_, Nat.zero_le _, fun h => absurd h.symm Bool.false_ne_true, fun _ => rfl, hs.candid⟩
    rw [hs.batches, List.append_nil, List.append_assoc]

/-- For every interleaving of requests over both protocols with the writer task, the engine and the
end of the task: the batches of the requests answered with success are, in order, those the task
has taken followed by those waiting, or by those dropped when the task ended; never more wait than
the buffer holds; and a reply says whether the request could be read and never that the server
failed, except that there is none where an id made the decoder panic. -/
theorem front_accounts (acts : List FrontAct)
    (h : run (Front.step wire cfg bufferDepth) (Front.new cfg) acts = some t) :
    accepted wire t.log = t.received ++ t.dropped ++ t.pipeline.channel ∧
    t.pipeline.channel.length ≤ bufferDepth ∧
    (t.ended = false → t.dropped = []) ∧ (t.ended = true → t.pipeline.channel = []) ∧
    ∀ x ∈ t.log, x.2.verdict ≠ .failed ∧ (x.2.verdict = .refused ↔ x.1.Unreadable wire) ∧
      (x.2.verdict = .crashed ↔ x.1.Panics wire) := by
  have hs : Upright wire bufferDepth t :=
    run_invariant (Front.step wire cfg bufferDepth) (fun _ _ => True) (Upright wire bufferDepth)
      (fun u a v hu _ hstep => upright_step wire cfg bufferDepth u v a hu hstep) acts
      (Front.new cfg) t (upright_new wire cfg bufferDepth) (along_true _ _ _) h
  exact ⟨hs.batches, hs.room, hs.running, hs.ended, hs.candid⟩

end Runs

/-! A buffer of one batch: a request over gRPC takes the place, one over HTTP finds it taken, one
has no content type, one has a body that ends inside a number, one has an id that is cut inside a
character, and one comes after the writer task has ended. -/

/-- The protobuf message of one log record with the time 5, and what it says. -/
def oneLogBytes : List UInt8 := [10, 13, 18, 11, 18, 9, 9, 5, 0, 0, 0, 0, 0, 0, 0]

def oneLogMessage : List ResourceLogs :=
  [⟨none, [⟨none, [⟨5, 0, 0, .empty, none, ⟨[], by decide⟩, ⟨[], by decide⟩, ⟨[], by decide⟩⟩],
    .empty⟩]⟩]

/-- `{"resourceLogs":[{"scopeLogs":[{"logRecords":[{"traceId":"0\u00e90…"}]}]}]}`. -/
def cutIdBytes : List UInt8 :=
  ("\x7b\"resourceLogs\":[\x7b\"scopeLogs\":[\x7b\"logRecords\":[\x7b\"traceId\":".toList ++
    "\"0\\u00e900000000000000000000000000000\"\x7d]\x7d]\x7d]\x7d".toList).map LibText.asciiByte

def cutId : Value :=
  .object [("resourceLogs", .array [.object [("scopeLogs", .array [.object [("logRecords",
    .array [.object [("traceId", .string "0é00000000000000000000000000000")]])]])]])]

/-- What prost and serde_json make of these bodies: an empty message has no parts, a number needs
its last byte, and no JSON text is empty. -/
def sampleWire : Wire where
  fromSlice body :=
    if body = cutIdBytes then .ok cutId else .error "EOF while parsing a value at line 1 column 0"
  logs body :=
    if body = [] then .ok []
    else if body = oneLogBytes then .ok oneLogMessage
    else .error "failed to decode Protobuf message: invalid varint"
  metrics body :=
    if body = [] then .ok [] else .error "failed to decode Protobuf message: invalid varint"
  spans body :=
    if body = [] then .ok [] else .error "failed to decode Protobuf message: invalid varint"

def header (contentType : String) : Option (List UInt8) :=
  some (contentType.toList.map LibText.asciiByte)

def crowdedRun : List FrontAct :=
  [.request (.grpcLogs oneLogMessage), .request (.http .log (header contentTypeProto) oneLogBytes),
    .request (.http .log none oneLogBytes),
    .request (.http .metric (header contentTypeProto) [255]),
    .request (.http .log (header contentTypeJson) cutIdBytes), .receive,
    .request (.http .log (header contentTypeProto) oneLogBytes), .stop,
    .request (.grpcTraces [])]

theorem crowdedRun_runs : ∃ t,
    run (Front.step sampleWire defaultConfig 1) (Front.new defaultConfig) crowdedRun = some t ∧
    t.log.map (fun x => x.2.verdict) =
      [.accepted, .overloaded, .refused, .refused, .crashed, .accepted, .overloaded] ∧
    t.received.length = 1 ∧ t.dropped.length = 1 ∧ t.ended = true :=
  ⟨_, rfl, rfl, rfl, rfl, rfl⟩

/-- The second batch accepted is dropped with the task. -/
theorem front_accounts_crowded : ∃ t,
    run (Front.step sampleWire defaultConfig 1) (Front.new defaultConfig) crowdedRun = some t ∧
    t.received.length = 1 ∧ t.dropped.length = 1 ∧
    accepted sampleWire t.log = t.received ++ t.dropped := by
  obtain ⟨t, hrun, -, hreceived, hdropped, hended⟩ := crowdedRun_runs
  obtain ⟨hbatches, -, -, hchannel, -⟩ :=
    front_accounts sampleWire defaultConfig 1 t crowdedRun hrun
  refine ⟨t, hrun, hreceived, hdropped, ?_⟩
  rw [hbatches, hchannel hended, List.append_nil]

end InfraLens.Ingest
