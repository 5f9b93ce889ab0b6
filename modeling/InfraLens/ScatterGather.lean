import InfraLens.Router

/-! Scatter/gather (infralens-rpc, scatter_gather.rs): a query goes to the target nodes, each in a
task of its own, and the results are collected in the order the tasks end. Batches and their IPC
decoding are parameters. -/
namespace InfraLens.Rpc
open Cluster

structure ShardQueryResponse where
  recordBatchIpc : List UInt8
  isLast : Bool
  error : String

/-- What the stream of a shard delivers: a reply, or a status in its place. -/
inductive Message where
  | response (resp : ShardQueryResponse)
  | failed (e : String)

/-- How a shard answers: it refuses the connection or the query, or it streams messages and then
ends the stream. -/
inductive Conversation where
  | refused (e : String)
  | stream (messages : List Message)

/-- How a task ends; one that panics or is aborted gives no result. -/
inductive TaskOutcome where
  | ran (conversation : Conversation)
  | failed

structure ScatterResult (β : Type) where
  batches : List β
  errorNodes : List String

section Query
variable {β : Type} (decode : List UInt8 → Except String (List β))

/-- The batches of one reply; without bytes there are none. -/
def replyBatches (resp : ShardQueryResponse) : Except String (List β) :=
  if resp.recordBatchIpc.isEmpty then .ok [] else decode resp.recordBatchIpc

/-- The loop of `query_single_shard`. It also leaves the loop when the stream ends. -/
def collect (batches : List β) : List Message → Except String (List β)
  | [] => .ok batches
  | .failed e :: _ => .error e
  | .response resp :: messages =>
    if resp.error ≠ "" then .error resp.error
    else
      match replyBatches decode resp with
      | .error e => .error e
      | .ok bs =>
        if resp.isLast then .ok (batches ++ bs) else collect (batches ++ bs) messages

def querySingleShard : Conversation → Except String (List β)
  | .refused e => .error e
  | .stream messages => collect decode [] messages

/-- The tasks that are spawned: a target that is not in the view is skipped. -/
def spawned (view : ClusterView) (targets : List (String × TaskOutcome)) :
    List (String × TaskOutcome) :=
  targets.filter fun t => (view.grpcAddr t.1).isSome

/-- One result in the loop of `execute`; a task that failed is only logged. -/
def joinNext (r : ScatterResult β) (t : String × TaskOutcome) : ScatterResult β :=
  match t.2 with
  | .ran conversation =>
    match querySingleShard decode conversation with
    | .ok batches => { r with batches := r.batches ++ batches }
    | .error _ => { r with errorNodes := r.errorNodes ++ [t.1] }
  | .failed => r

/-- What `execute` returns for the tasks in the order they end. -/
def execute (done : List (String × TaskOutcome)) : ScatterResult β :=
  done.foldl (joinNext decode) ⟨[], []⟩

/-! ### Whole answers and failures -/

/-- The messages reach a last reply, with these batches up to it. -/
inductive Complete : List Message → List β → Prop where
  | last (resp : ShardQueryResponse) (bs : List β) (messages : List Message)
      (herror : resp.error = "") (hbatches : replyBatches decode resp = .ok bs)
      (hlast : resp.isLast = true) : Complete (.response resp :: messages) bs
  | more (resp : ShardQueryResponse) (bs bs' : List β) (messages : List Message)
      (herror : resp.error = "") (hbatches : replyBatches decode resp = .ok bs)
      (hlast : resp.isLast = false) (hrest : Complete messages bs') :
      Complete (.response resp :: messages) (bs ++ bs')

/-- Before any last reply there is a status, an error or a reply that does not decode. -/
inductive Fails : List Message → Prop where
  | status (e : String) (messages : List Message) : Fails (.failed e :: messages)
  | error (resp : ShardQueryResponse) (messages : List Message) (herror : resp.error ≠ "") :
      Fails (.response resp :: messages)
  | decoding (resp : ShardQueryResponse) (messages : List Message) (e : String)
      (herror : resp.error = "") (hbatches : replyBatches decode resp = .error e) :
      Fails (.response resp :: messages)
  | more (resp : ShardQueryResponse) (bs : List β) (messages : List Message)
      (herror : resp.error = "") (hbatches : replyBatches decode resp = .ok bs)
      (hlast : resp.isLast = false) (hrest : Fails messages) : Fails (.response resp :: messages)

/-- A task that has the whole answer of its shard. -/
def TaskOutcome.Completes (batches : List β) : TaskOutcome → Prop
  | .ran (.stream messages) => Complete decode messages batches
  | _ => False

/-- A task that meets an error of its shard. -/
def TaskOutcome.Errs : TaskOutcome → Prop
  | .ran (.refused _) => True
  | .ran (.stream messages) => Fails decode messages
  | .failed => False

theorem collect_complete (messages : List Message) (bs : List β) (h : Complete decode messages bs)
    (batches : List β) : collect decode batches messages = .ok (batches ++ bs) := by
  induction h generalizing batches with
  | last resp bs messages herror hbatches hlast => simp [collect, herror, hbatches, hlast]
  | more resp bs bs' messages herror hbatches hlast hrest ih =>
    simp [collect, herror, hbatches, hlast, ih]

theorem collect_fails (messages : List Message) (h : Fails decode messages) (batches : List β) :
    ∃ e, collect decode batches messages = .error e := by
  induction h generalizing batches with
  | status e messages => exact ⟨e, rfl⟩
  | error resp messages herror => exact ⟨resp.error, by simp [collect, herror]⟩
  | decoding resp messages e herror hbatches => exact ⟨e, by simp [collect, herror, hbatches]⟩
  | more resp bs messages herror hbatches hlast hrest ih =>
    simpa [collect, herror, hbatches, hlast] using ih (batches ++ bs)

theorem fails_of_collect (messages : List Message) (batches : List β) (e : String)
    (h : collect decode batches messages = .error e) : Fails decode messages := by
  induction messages generalizing batches with
  | nil => cases h
  | cons message messages ih =>
    cases message with
    | failed e => exact .status e messages
    | response resp =>
      by_cases herror : resp.error = ""
      · cases hbatches : replyBatches decode resp with
        | error e => exact .decoding resp messages e herror hbatches
        | ok bs =>
          cases hlast : resp.isLast with
          | true => simp [collect, herror, hbatches, hlast] at h
          | false =>
            simp only [collect, herror, hbatches, hlast] at h
            exact .more resp bs messages herror hbatches hlast (ih (batches ++ bs) h)
      · exact .error resp messages herror

theorem collect_error_iff (messages : List Message) (batches : List β) :
    (∃ e, collect decode batches messages = .error e) ↔ Fails decode messages := by
  constructor
  · intro h
    obtain ⟨e, he⟩ := h
    exact fails_of_collect decode messages batches e he
  · exact fun h => collect_fails decode messages h batches

/-! ### What is gathered -/

def taskBatches : TaskOutcome → List β
  | .ran conversation => (querySingleShard decode conversation).toOption.getD []
  | .failed => []

theorem errs_iff (conversation : Conversation) :
    (∃ e, querySingleShard decode conversation = .error e) ↔
      TaskOutcome.Errs decode (.ran conversation) := by
  cases conversation with
  | refused e => exact iff_of_true ⟨e, rfl⟩ trivial
  | stream messages => exact collect_error_iff decode messages []

theorem taskBatches_completes (outcome : TaskOutcome) (bs : List β)
    (h : outcome.Completes decode bs) : taskBatches decode outcome = bs := by
  cases outcome with
  | failed => cases h
  | ran conversation =>
    cases conversation with
    | refused e => cases h
    | stream messages =>
      rw [taskBatches, querySingleShard, collect_complete decode messages bs h]
      rfl

theorem joinNext_batches (r : ScatterResult β) (t : String × TaskOutcome) :
    (joinNext decode r t).batches = r.batches ++ taskBatches decode t.2 := by
  obtain ⟨node, outcome⟩ := t
  cases outcome with
  | failed => exact (List.append_nil _).symm
  | ran conversation =>
    simp only [joinNext, taskBatches]
    cases querySingleShard decode conversation with
    | ok batches => rfl
    | error e => exact (List.append_nil _).symm

theorem mem_joinNext_errorNodes (r : ScatterResult β) (t : String × TaskOutcome) (node : String) :
    node ∈ (joinNext decode r t).errorNodes ↔
      node ∈ r.errorNodes ∨ t.1 = node ∧ t.2.Errs decode := by
  obtain ⟨node', outcome⟩ := t
  cases outcome with
  | failed => simp [joinNext, TaskOutcome.Errs]
  | ran conversation =>
    rw [← errs_iff]
    simp only [joinNext]
    cases querySingleShard decode conversation with
    | ok batches => simp
    | error e => simp [eq_comm]

theorem foldl_joinNext (done : List (String × TaskOutcome)) (r : ScatterResult β) :
    (done.foldl (joinNext decode) r).batches =
        r.batches ++ done.flatMap (fun t => taskBatches decode t.2) ∧
      ∀ node, node ∈ (done.foldl (joinNext decode) r).errorNodes ↔
        node ∈ r.errorNodes ∨ ∃ t ∈ done, t.1 = node ∧ t.2.Errs decode := by
  induction done generalizing r with
  | nil => simp
  | cons t done ih =>
    obtain ⟨hbatches, herrors⟩ := ih (joinNext decode r t)
    rw [List.foldl_cons]
    constructor
    · rw [hbatches, joinNext_batches, List.flatMap_cons, List.append_assoc]
    · intro node
      rw [herrors, mem_joinNext_errorNodes, List.exists_mem_cons_iff, or_assoc]

theorem mem_errorNodes (done : List (String × TaskOutcome)) (node : String) :
    node ∈ (execute decode done).errorNodes ↔ ∃ t ∈ done, t.1 = node ∧ t.2.Errs decode := by
  rw [execute, (foldl_joinNext decode done ⟨[], []⟩).2]
  simp

theorem taskBatches_infix (done : List (String × TaskOutcome)) (t : String × TaskOutcome)
    (h : t ∈ done) : taskBatches decode t.2 <:+: (execute decode done).batches := by
  obtain ⟨before, after, rfl⟩ := List.append_of_mem h
  rw [execute, (foldl_joinNext decode _ ⟨[], []⟩).1, List.flatMap_append, List.flatMap_cons]
  exact ⟨before.flatMap fun t => taskBatches decode t.2,
    after.flatMap fun t => taskBatches decode t.2, by simp⟩

/-- A target in the view whose task has the whole answer of its shard, which is in the result. -/
def Contributed (view : ClusterView) (r : ScatterResult β) (t : String × TaskOutcome) : Prop :=
  (view.grpcAddr t.1).isSome ∧ ∃ bs, t.2.Completes decode bs ∧ bs <:+: r.batches

/-- A target has contributed or is listed, and not both. -/
def Accounted (view : ClusterView) (r : ScatterResult β) (t : String × TaskOutcome) : Prop :=
  (Contributed decode view r t ∨ t.1 ∈ r.errorNodes) ∧
    ¬ (Contributed decode view r t ∧ t.1 ∈ r.errorNodes)

/-- Some task for the node of a target meets an error. -/
def NodeErrs (targets : List (String × TaskOutcome)) (node : String) : Prop :=
  ∃ t ∈ targets, t.1 = node ∧ t.2.Errs decode

/-- Whatever the order in which the tasks end, every target is accounted for exactly when it is in
the view and either its task has the whole answer of the shard and no task for the node meets an
error, or some task for the node meets one and its own has no whole answer. -/
theorem scatter_accounts_iff (view : ClusterView) (targets done : List (String × TaskOutcome))
    (h : done.Perm (spawned view targets)) :
    (∀ t ∈ targets, Accounted decode view (execute decode done) t) ↔
      ∀ t ∈ targets, (view.grpcAddr t.1).isSome ∧
        ((∃ bs, t.2.Completes decode bs) ↔ ¬ NodeErrs decode targets t.1) := by
  have hdone : ∀ t, t ∈ done ↔ t ∈ targets ∧ (view.grpcAddr t.1).isSome := by
    intro t
    rw [h.mem_iff, spawned, List.mem_filter]
  have herrors : ∀ node, node ∈ (execute decode done).errorNodes ↔
      (view.grpcAddr node).isSome ∧ NodeErrs decode targets node := by
    intro node
    rw [mem_errorNodes]
    constructor
    · rintro ⟨t, ht, rfl, herrs⟩
      obtain ⟨hmem, hview⟩ := (hdone t).mp ht
      exact ⟨hview, t, hmem, rfl, herrs⟩
    · rintro ⟨hview, t, hmem, rfl, herrs⟩
      exact ⟨t, (hdone t).mpr ⟨hmem, hview⟩, rfl, herrs⟩
  have hcontributed : ∀ t ∈ targets, (Contributed decode view (execute decode done) t ↔
      (view.grpcAddr t.1).isSome ∧ ∃ bs, t.2.Completes decode bs) := by
    intro t ht
    constructor
    · rintro ⟨hview, bs, hcomplete, _⟩
      exact ⟨hview, bs, hcomplete⟩
    · rintro ⟨hview, bs, hcomplete⟩
      refine ⟨hview, bs, hcomplete, ?_⟩
      rw [← taskBatches_completes decode t.2 bs hcomplete]
      exact taskBatches_infix decode done t ((hdone t).mpr ⟨ht, hview⟩)
  refine forall₂_congr fun t ht => ?_
  rw [Accounted, hcontributed t ht, herrors]
  by_cases hview : (view.grpcAddr t.1).isSome
  · simp only [hview, true_and]
    tauto
  · simp [hview]

theorem not_errs_of_completes (outcome : TaskOutcome) (bs : List β)
    (h : outcome.Completes decode bs) : ¬ outcome.Errs decode := by
  intro herrs
  cases outcome with
  | failed => exact herrs
  | ran conversation =>
    obtain ⟨e, he⟩ := (errs_iff decode conversation).mpr herrs
    cases conversation with
    | refused e => exact h
    | stream messages =>
      rw [querySingleShard, collect_complete decode messages bs h] at he
      cases he

end Query

def decodeBytes (bytes : List UInt8) : Except String (List UInt8) := .ok bytes

def viewOf (nodeId : String) : ClusterView := ⟨[bareNode nodeId], .new 1⟩

/-- A shard that answers in two replies, and one that breaks off after its first. -/
def wholeAndBroken : List (String × TaskOutcome) :=
  [("a", .ran (.stream [.response ⟨[1], false, ""⟩, .response ⟨[2], true, ""⟩])),
    ("b", .ran (.stream [.response ⟨[3], false, ""⟩, .failed "unavailable"]))]

/-- The shard that breaks off ends first: its batches are dropped and it is listed. -/
theorem scatter_accounts_iff_broken_first :
    execute decodeBytes wholeAndBroken.reverse = ⟨[1, 2], ["b"]⟩ ∧
      ∀ t ∈ wholeAndBroken, Accounted decodeBytes ⟨[bareNode "a", bareNode "b"], .new 1⟩
        (execute decodeBytes wholeAndBroken.reverse) t := by
  have hwhole : TaskOutcome.Completes decodeBytes [1, 2]
      (.ran (.stream [.response ⟨[1], false, ""⟩, .response ⟨[2], true, ""⟩])) :=
    Complete.more _ [1] [2] _ rfl rfl rfl (.last _ _ _ rfl rfl rfl)
  have hbroken : TaskOutcome.Errs decodeBytes
      (.ran (.stream [.response ⟨[3], false, ""⟩, .failed "unavailable"])) :=
    Fails.more _ [3] _ rfl rfl rfl (.status _ _)
  refine ⟨rfl, (scatter_accounts_iff decodeBytes ⟨[bareNode "a", bareNode "b"], .new 1⟩
    wholeAndBroken wholeAndBroken.reverse (List.reverse_perm _)).mpr ?_⟩
  intro t ht
  simp only [wholeAndBroken, List.mem_cons, List.not_mem_nil, or_false] at ht
  obtain rfl | rfl := ht
  · refine ⟨rfl, iff_of_true ⟨_, hwhole⟩ ?_⟩
    rintro ⟨t, ht, hnode, herrs⟩
    simp only [wholeAndBroken, List.mem_cons, List.not_mem_nil, or_false] at ht
    obtain rfl | rfl := ht
    · exact not_errs_of_completes decodeBytes _ _ hwhole herrs
    · simp at hnode
  · refine ⟨rfl, iff_of_false ?_ ?_⟩
    · rintro ⟨bs, hcomplete⟩
      exact not_errs_of_completes decodeBytes _ bs hcomplete hbroken
    · exact fun h => h ⟨_, List.mem_cons_of_mem _ List.mem_cons_self, rfl, hbroken⟩

/-- A node that is not in the view, a task that fails and a stream that ends before its last reply
leave nothing in the errors. -/
theorem scatter_hides_missing :
    (spawned (viewOf "b") [("a", .failed)] = [] ∧
        execute decodeBytes [] = ⟨[], []⟩) ∧
      (spawned (viewOf "a") [("a", .failed)] = [("a", .failed)] ∧
        execute decodeBytes [("a", .failed)] = ⟨[], []⟩) ∧
      spawned (viewOf "a") [("a", .ran (.stream [.response ⟨[1], false, ""⟩]))] =
          [("a", .ran (.stream [.response ⟨[1], false, ""⟩]))] ∧
        execute decodeBytes [("a", .ran (.stream [.response ⟨[1], false, ""⟩]))] = ⟨[1], []⟩ :=
  ⟨⟨rfl, rfl⟩, ⟨rfl, rfl⟩, rfl, rfl⟩

end InfraLens.Rpc
