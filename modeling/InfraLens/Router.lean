import InfraLens.Membership

/-! The shard router (router.rs) on the view of the cluster, and when the nodes of the view, those
of its ring and those registered are the same. -/
namespace InfraLens.Cluster
open LibMap LibRun

/-! ### Routing -/

def ClusterView.grpcAddr (view : ClusterView) (nodeId : String) : Option String :=
  (view.nodes.find? fun n => n.nodeId = nodeId).map NodeMeta.internalGrpcAddr

structure RoutingDecision where
  primary : String
  replicas : List String
  isLocal : Bool
  deriving DecidableEq

def RoutingDecision.nodes (d : RoutingDecision) : List String := d.primary :: d.replicas

structure ShardRouter where
  localId : String
  repFactor : UInt32

/-- A replication factor of 0 panics: `rep_factor - 1` overflows. On an empty ring the local node
is the primary and there are no replicas. -/
def ShardRouter.route (hash64 : List UInt8 → UInt64) (r : ShardRouter) (view : ClusterView)
    (seriesKey : String) : Option RoutingDecision :=
  let shard := hash64 seriesKey.toByteArray.data.toList
  let primary := (view.ring.primaryFor shard).toOption.getD r.localId
  let nodes := (view.ring.replicaNodes shard r.repFactor.toNat).toOption.getD []
  if r.repFactor = 0 then none
  else some ⟨primary, (nodes.filter (· ≠ primary)).take (r.repFactor.toNat - 1),
    primary = r.localId⟩

def ConsistentHashRing.nodes (r : ConsistentHashRing) : List String := r.ring.entries.map Prod.snd

theorem takeDistinct_subset (count : Nat) (result nodes : List String) :
    ∀ n ∈ takeDistinct count result nodes, n ∈ result ∨ n ∈ nodes := by
  induction nodes generalizing result with
  | nil => exact fun n hn => Or.inl hn
  | cons node nodes ih =>
    obtain ⟨result', hresult⟩ : ∃ result', result' =
      if node ∈ result then result else result ++ [node] := ⟨_, rfl⟩
    have hstep : ∀ n ∈ result', n ∈ result ∨ n ∈ node :: nodes := by
      intro n hn
      rw [hresult] at hn
      split at hn
      · exact Or.inl hn
      · obtain hn | hn := List.mem_append.mp hn
        · exact Or.inl hn
        · exact Or.inr (List.mem_singleton.mp hn ▸ List.mem_cons_self)
    intro n hn
    simp only [takeDistinct, ← hresult] at hn
    split at hn
    · exact hstep n hn
    · obtain hn | hn := ih result' n hn
      · exact hstep n hn
      · exact Or.inr (List.mem_cons_of_mem node hn)

theorem rangeFrom_subset (r : ConsistentHashRing) (shard : UInt64) :
    ∀ e ∈ r.ring.rangeFrom shard, e ∈ r.ring.entries := by
  intro e he
  rw [BTreeMap.rangeFrom] at he
  exact List.mem_of_mem_filter he

theorem primaryFor_mem (r : ConsistentHashRing) (shard : UInt64)
    (h : r.ring.entries.isEmpty = false) : ∃ node ∈ r.nodes, r.primaryFor shard = .ok node := by
  obtain ⟨e, he⟩ : ∃ e, (r.ring.rangeFrom shard).head?.or r.ring.entries.head? = some e := by
    rw [← Option.isSome_iff_exists, Option.isSome_or, Bool.or_eq_true]
    refine Or.inr ?_
    rw [List.isSome_head?]
    exact List.isEmpty_eq_false_iff.mp h
  have hmem : e ∈ r.ring.entries := by
    obtain he | ⟨_, he⟩ := Option.or_eq_some_iff.mp he
    · exact rangeFrom_subset r shard e (List.mem_of_mem_head? he)
    · exact List.mem_of_mem_head? he
  refine ⟨e.2, List.mem_map_of_mem hmem, ?_⟩
  rw [ConsistentHashRing.primaryFor, h, he]
  rfl

theorem replicaNodes_subset (r : ConsistentHashRing) (shard : UInt64) (count : Nat)
    (nodes : List String) (h : r.replicaNodes shard count = .ok nodes) :
    ∀ n ∈ nodes, n ∈ r.nodes := by
  unfold ConsistentHashRing.replicaNodes at h
  split at h
  · cases h
  · cases h
    intro n hn
    have hclock := (takeDistinct_subset count [] _ n hn).resolve_left (by simp)
    rw [ConsistentHashRing.clockwise] at hclock
    obtain ⟨e, he, rfl⟩ := List.mem_map.mp hclock
    refine List.mem_map_of_mem ?_
    obtain he | he := List.mem_append.mp he
    · exact rangeFrom_subset r shard e he
    · exact he

theorem route_some (hash64 : List UInt8 → UInt64) (r : ShardRouter) (view : ClusterView)
    (seriesKey : String) (d : RoutingDecision) (h : r.route hash64 view seriesKey = some d) :
    ∃ shard, d.primary = (view.ring.primaryFor shard).toOption.getD r.localId ∧
      ∀ n ∈ d.replicas,
        n ∈ (view.ring.replicaNodes shard r.repFactor.toNat).toOption.getD [] := by
  simp only [ShardRouter.route] at h
  split at h
  · cases h
  · cases h
    exact ⟨_, rfl, fun n hn => List.mem_of_mem_filter (List.mem_of_mem_take hn)⟩

theorem route_mem (hash64 : List UInt8 → UInt64) (r : ShardRouter) (view : ClusterView)
    (seriesKey : String) (d : RoutingDecision) (h : r.route hash64 view seriesKey = some d)
    (hne : view.ring.nodes ≠ []) : ∀ n ∈ d.nodes, n ∈ view.ring.nodes := by
  obtain ⟨shard, hprimary, hreplicas⟩ := route_some hash64 r view seriesKey d h
  have hentries : view.ring.ring.entries.isEmpty = false := by
    rw [List.isEmpty_eq_false_iff]
    exact fun hnil => hne (by rw [ConsistentHashRing.nodes, hnil, List.map_nil])
  intro n hn
  obtain rfl | hn := List.mem_cons.mp hn
  · obtain ⟨node, hmem, hnode⟩ := primaryFor_mem view.ring shard hentries
    rw [hprimary, hnode]
    exact hmem
  · have hn := hreplicas n hn
    have hnodes : view.ring.replicaNodes shard r.repFactor.toNat =
        .ok (takeDistinct r.repFactor.toNat [] (view.ring.clockwise shard)) := by
      rw [ConsistentHashRing.replicaNodes, hentries]
      rfl
    rw [hnodes] at hn
    exact replicaNodes_subset view.ring shard _ _ hnodes n hn

theorem route_empty (hash64 : List UInt8 → UInt64) (r : ShardRouter) (view : ClusterView)
    (seriesKey : String) (hr : r.repFactor ≠ 0) (hnil : view.ring.nodes = []) :
    r.route hash64 view seriesKey = some ⟨r.localId, [], true⟩ := by
  have hentries : view.ring.ring.entries.isEmpty = true := by
    rw [List.isEmpty_iff]
    exact List.map_eq_nil_iff.mp hnil
  simp only [ShardRouter.route, ConsistentHashRing.primaryFor, ConsistentHashRing.replicaNodes,
    hentries, if_neg hr, if_true]
  simp [Except.toOption]

theorem grpcAddr_isSome_iff (view : ClusterView) (nodeId : String) :
    (∃ addr, view.grpcAddr nodeId = some addr) ↔ nodeId ∈ view.nodes.map NodeMeta.nodeId := by
  simp [ClusterView.grpcAddr, Option.map_eq_some_iff, ← Option.isSome_iff_exists]

/-! ### Joins and leaves -/

/-- A change under the prefix, the value of a key carrying the id of the key. -/
inductive NodeEvent where
  | joined (node : NodeMeta)
  | left (nodeId : String)

def NodeEvent.nodeId : NodeEvent → String
  | .joined node => node.nodeId
  | .left nodeId => nodeId

def NodeEvent.event : NodeEvent → Event
  | .joined node => .put (nodeKey node.nodeId) node
  | .left nodeId => .delete (nodeKey nodeId)

/-- The keys under the prefix are those of the nodes they hold. Other keys may hold anything. -/
def Keyed (etcd : Etcd) : Prop :=
  ∀ e ∈ etcd.kvs.entries, nodesPrefix.toList <+: e.1.toList → e.1 = nodeKey e.2.nodeId

/-- The last event of an id is a registration, or it has none and is there at the start. -/
def Registered (etcd : Etcd) (events : List NodeEvent) (nodeId : String) : Prop :=
  match events.reverse.find? fun e => e.nodeId = nodeId with
  | some (.joined _) => True
  | some (.left _) => False
  | none => nodeKey nodeId ∈ etcd.keys

theorem registered_append (etcd : Etcd) (events : List NodeEvent) (e : NodeEvent)
    (nodeId : String) (h : e.nodeId ≠ nodeId) :
    Registered etcd (events ++ [e]) nodeId ↔ Registered etcd events nodeId := by
  simp [Registered, h]

theorem registered_joined (etcd : Etcd) (events : List NodeEvent) (node : NodeMeta)
    (nodeId : String) :
    Registered etcd (events ++ [.joined node]) nodeId ↔
      nodeId = node.nodeId ∨ Registered etcd events nodeId := by
  by_cases h : node.nodeId = nodeId
  · simp [Registered, NodeEvent.nodeId, h]
  · rw [registered_append etcd events (.joined node) nodeId h]
    exact (or_iff_right (Ne.symm h)).symm

theorem registered_left (etcd : Etcd) (events : List NodeEvent) (gone nodeId : String) :
    Registered etcd (events ++ [.left gone]) nodeId ↔
      nodeId ≠ gone ∧ Registered etcd events nodeId := by
  by_cases h : gone = nodeId
  · simp [Registered, NodeEvent.nodeId, h]
  · rw [registered_append etcd events (.left gone) nodeId h]
    exact (and_iff_right (Ne.symm h)).symm

/-! ### The view and its ring -/

section Tracking
variable (hash64 : List UInt8 → UInt64)

def viewAfter (etcd : Etcd) (virtualNodes : UInt32) (events : List NodeEvent) : ClusterView :=
  (events.map NodeEvent.event).foldl (watchEvent hash64) (loadView hash64 etcd virtualNodes)

def ClusterView.idList (view : ClusterView) : List String := view.nodes.map NodeMeta.nodeId

/-- The view has each of its nodes once, and its ring has just their positions. -/
structure Tracked (virtualNodes : UInt32) (ids : List String) (view : ClusterView) : Prop where
  single : view.idList.Nodup
  known : ∀ a ∈ view.idList, a ∈ ids
  size : view.ring.virtualNodes = virtualNodes
  placed : Placed hash64 view.ring view.idList.toFinset

/-- The ring call that an event makes. -/
def ringCall : Event → Call
  | .put _ value => .addNode value.nodeId
  | .delete key => .removeNode (deletedNode key)

theorem ring_watchEvent (view : ClusterView) (e : Event) :
    (watchEvent hash64 view e).ring = (ringCall e).apply hash64 view.ring := by
  cases e <;> rfl

omit hash64 in
theorem mem_idList (view : ClusterView) (nodeId : String) :
    nodeId ∈ view.idList ↔ nodeId ∈ view.ids :=
  List.mem_map

theorem idList_watchEvent (view : ClusterView) (e : Event) :
    (watchEvent hash64 view e).idList.toFinset = (ringCall e).live view.idList.toFinset := by
  ext nodeId
  rw [List.mem_toFinset, mem_idList, ids_watchEvent]
  cases e with
  | put key value => simp [Event.ids, ringCall, Call.live, mem_idList]
  | delete key => simp [Event.ids, ringCall, Call.live, mem_idList, and_comm]

theorem single_watchEvent (view : ClusterView) (e : Event) (h : view.idList.Nodup) :
    (watchEvent hash64 view e).idList.Nodup := by
  cases e with
  | put key value =>
    have hids : (watchEvent hash64 view (.put key value)).idList =
        (view.nodes.filter fun n => n.nodeId ≠ value.nodeId).map NodeMeta.nodeId ++
          [value.nodeId] := List.map_append
    rw [hids, List.nodup_append]
    refine ⟨h.sublist (List.filter_sublist.map _), List.nodup_singleton _, ?_⟩
    intro a ha b hb
    obtain ⟨n, hn, rfl⟩ := List.mem_map.mp ha
    rw [List.mem_singleton.mp hb]
    simpa using (List.mem_filter.mp hn).2
  | delete key => exact h.sublist (List.filter_sublist.map _)

theorem tracked_watchEvent (virtualNodes : UInt32) (ids : List String) (view : ClusterView)
    (hhash : NoCollision hash64 virtualNodes ids) (h : Tracked hash64 virtualNodes ids view)
    (e : Event) (he : (ringCall e).nodeId ∈ ids) :
    Tracked hash64 virtualNodes ids (watchEvent hash64 view e) where
  single := single_watchEvent hash64 view e h.single
  known := by
    intro a ha
    have hlive : ∀ a ∈ view.idList.toFinset, a ∈ ids :=
      fun a ha => h.known a (List.mem_toFinset.mp ha)
    refine live_subset view.idList.toFinset ids hlive (ringCall e) he a ?_
    rw [← idList_watchEvent hash64, List.mem_toFinset]
    exact ha
  size := by rw [ring_watchEvent, virtualNodes_apply, h.size]
  placed := by
    rw [ring_watchEvent, idList_watchEvent]
    exact placed_apply hash64 view.ring _ ids (h.size ▸ hhash)
      (fun a ha => h.known a (List.mem_toFinset.mp ha)) (ringCall e) he h.placed

theorem tracked_foldl (virtualNodes : UInt32) (ids : List String) (es : List Event)
    (hhash : NoCollision hash64 virtualNodes ids) (he : ∀ e ∈ es, (ringCall e).nodeId ∈ ids)
    (view : ClusterView) (h : Tracked hash64 virtualNodes ids view) :
    Tracked hash64 virtualNodes ids (es.foldl (watchEvent hash64) view) := by
  induction es generalizing view with
  | nil => exact h
  | cons e es ih =>
    exact ih (fun e' he' => he e' (List.mem_cons_of_mem e he')) _
      (tracked_watchEvent hash64 virtualNodes ids view hhash h e (he e List.mem_cons_self))

def loadedNodes (etcd : Etcd) : List NodeMeta :=
  (etcd.kvs.entries.filter fun kv => nodesPrefix.toList <+: kv.1.toList).map Prod.snd

omit hash64 in
theorem nodup_loadedNodes (etcd : Etcd) (hkeyed : Keyed etcd) :
    ((loadedNodes etcd).map NodeMeta.nodeId).Nodup := by
  have hkeys : ((etcd.kvs.entries.filter fun kv =>
      nodesPrefix.toList <+: kv.1.toList).map Prod.fst).Nodup :=
    etcd.kvs.nodup_keys.sublist (List.filter_sublist.map _)
  have heq : (etcd.kvs.entries.filter fun kv => nodesPrefix.toList <+: kv.1.toList).map Prod.fst =
      ((loadedNodes etcd).map NodeMeta.nodeId).map nodeKey := by
    rw [loadedNodes, List.map_map, List.map_map]
    refine List.map_congr_left fun e he => ?_
    obtain ⟨hmem, hpre⟩ := List.mem_filter.mp he
    exact hkeyed e hmem (by simpa using hpre)
  rw [heq] at hkeys
  exact hkeys.of_map _

omit hash64 in
theorem mem_loadedNodes (etcd : Etcd) (hkeyed : Keyed etcd) (nodeId : String) :
    nodeId ∈ (loadedNodes etcd).map NodeMeta.nodeId ↔ nodeKey nodeId ∈ etcd.keys := by
  simp only [loadedNodes, List.mem_map, List.mem_filter, decide_eq_true_eq, mem_keys]
  constructor
  · rintro ⟨m, ⟨e, ⟨he, hpre⟩, rfl⟩, rfl⟩
    exact ⟨e.2, hkeyed e he hpre ▸ he⟩
  · rintro ⟨m, hm⟩
    have hpre : nodesPrefix.toList <+: (nodeKey nodeId).toList := by
      rw [nodeKey, String.toList_append]
      exact List.prefix_append _ _
    exact ⟨m, ⟨_, ⟨hm, hpre⟩, rfl⟩, ((nodeKey_inj _ _).mp (hkeyed _ hm hpre)).symm⟩

omit hash64 in
theorem live_addNodes (metas : List NodeMeta) (live : Finset String) :
    (metas.map fun m => Call.addNode m.nodeId).foldl Call.live live =
      live ∪ (metas.map NodeMeta.nodeId).toFinset := by
  induction metas generalizing live with
  | nil => simp
  | cons m metas ih =>
    rw [List.map_cons, List.foldl_cons, ih]
    simp [Call.live]

theorem tracked_loadView (etcd : Etcd) (hkeyed : Keyed etcd) (virtualNodes : UInt32)
    (ids : List String) (hhash : NoCollision hash64 virtualNodes ids)
    (hids : ∀ a ∈ (loadedNodes etcd).map NodeMeta.nodeId, a ∈ ids) :
    Tracked hash64 virtualNodes ids (loadView hash64 etcd virtualNodes) := by
  have hring : (loadView hash64 etcd virtualNodes).ring =
      ringAfter hash64 virtualNodes ((loadedNodes etcd).map fun m => Call.addNode m.nodeId) := by
    rw [ringAfter, List.foldl_map]
    rfl
  obtain ⟨hplaced, hsize⟩ := placed_ringAfter hash64 virtualNodes
    ((loadedNodes etcd).map fun m => Call.addNode m.nodeId) ids hhash (by
      intro c hc
      obtain ⟨m, hm, rfl⟩ := List.mem_map.mp hc
      exact hids m.nodeId (List.mem_map_of_mem hm))
  refine ⟨nodup_loadedNodes etcd hkeyed, hids, ?_, ?_⟩
  · rw [hring, hsize]
  · rw [liveNodes, live_addNodes, Finset.empty_union] at hplaced
    rw [hring]
    exact hplaced

/-- The nodes of a ring in step are those of the view, as each has a position. -/
theorem mem_ring_nodes (virtualNodes : UInt32) (hvn : 1 ≤ virtualNodes.toNat)
    (ids : List String) (view : ClusterView) (h : Tracked hash64 virtualNodes ids view)
    (nodeId : String) : nodeId ∈ view.ring.nodes ↔ nodeId ∈ view.idList := by
  have hplaced := h.placed
  rw [Placed, h.size] at hplaced
  constructor
  · intro hn
    obtain ⟨⟨pos, node⟩, he, rfl⟩ := List.mem_map.mp hn
    exact List.mem_toFinset.mp ((hplaced pos node).mp he).1
  · intro hn
    have hpos : position hash64 nodeId 0 ∈ positions hash64 virtualNodes nodeId :=
      List.mem_map_of_mem (List.mem_range.mpr hvn)
    exact List.mem_map_of_mem (f := Prod.snd)
      ((hplaced _ nodeId).mpr ⟨List.mem_toFinset.mpr hn, hpos⟩)

/-! ### Consistency -/

/-- The view has each registered node once and no other, and so has its ring. -/
structure Consistent (view : ClusterView) (live : String → Prop) : Prop where
  single : view.idList.Nodup
  ids : ∀ nodeId, nodeId ∈ view.idList ↔ live nodeId
  ring : ∀ nodeId, nodeId ∈ view.ring.nodes ↔ live nodeId

/-- Whatever node a router picks has an address in the view. -/
def Addressed (view : ClusterView) : Prop :=
  ∀ (r : ShardRouter) seriesKey d, r.route hash64 view seriesKey = some d →
    ∀ n ∈ d.nodes, ∃ addr, view.grpcAddr n = some addr

def ringIds (etcd : Etcd) (events : List NodeEvent) : List String :=
  (loadedNodes etcd).map NodeMeta.nodeId ++ events.map fun e => (ringCall e.event).nodeId

/-- An id that starts like a key leaves only while neither it nor what is left of it without that
start is registered. -/
def Harmless (live : String → Prop) : NodeEvent → Prop
  | .joined _ => True
  | .left nodeId => nodesPrefix.toList <+: nodeId.toList →
      ¬ live nodeId ∧ ¬ live (deletedNode (nodeKey nodeId))

theorem viewAfter_append (etcd : Etcd) (virtualNodes : UInt32) (events : List NodeEvent)
    (e : NodeEvent) :
    viewAfter hash64 etcd virtualNodes (events ++ [e]) =
      watchEvent hash64 (viewAfter hash64 etcd virtualNodes events) e.event := by
  simp [viewAfter]

theorem tracked_viewAfter (etcd : Etcd) (hkeyed : Keyed etcd) (virtualNodes : UInt32)
    (events : List NodeEvent)
    (hhash : NoCollision hash64 virtualNodes (ringIds etcd events)) (n : Nat) :
    Tracked hash64 virtualNodes (ringIds etcd events)
      (viewAfter hash64 etcd virtualNodes (events.take n)) := by
  refine tracked_foldl hash64 virtualNodes _ _ hhash ?_ _
    (tracked_loadView hash64 etcd hkeyed virtualNodes _ hhash ?_)
  · intro e he
    obtain ⟨e, hmem, rfl⟩ := List.mem_map.mp he
    exact List.mem_append_right _
      (List.mem_map_of_mem (f := fun e => (ringCall e.event).nodeId) (List.mem_of_mem_take hmem))
  · exact fun a ha => List.mem_append_left _ ha

theorem ids_step_iff (etcd : Etcd) (events : List NodeEvent) (e : NodeEvent) (view : ClusterView)
    (h : ∀ nodeId, nodeId ∈ view.idList ↔ Registered etcd events nodeId) :
    (∀ nodeId, nodeId ∈ (watchEvent hash64 view e.event).idList ↔
        Registered etcd (events ++ [e]) nodeId) ↔
      Harmless (Registered etcd events) e := by
  have hids : ∀ nodeId, nodeId ∈ (watchEvent hash64 view e.event).idList ↔
      nodeId ∈ e.event.ids view.ids := by
    intro nodeId
    rw [mem_idList, ids_watchEvent]
  cases e with
  | joined node =>
    refine iff_of_true ?_ trivial
    intro nodeId
    rw [hids, registered_joined, ← h, mem_idList]
    exact Set.mem_insert_iff
  | left gone =>
    have hgone : ∀ nodeId, nodeId ∈ (watchEvent hash64 view (NodeEvent.left gone).event).idList ↔
        Registered etcd events nodeId ∧ nodeId ≠ deletedNode (nodeKey gone) := by
      intro nodeId
      rw [hids, ← h, mem_idList]
      rfl
    simp only [hgone, registered_left]
    by_cases hpre : nodesPrefix.toList <+: gone.toList
    · have hne : deletedNode (nodeKey gone) ≠ gone := deletedNode_ne gone hpre
      constructor
      · intro hall _
        refine ⟨fun hlive => ?_, fun hlive => ?_⟩
        · exact ((hall gone).mp ⟨hlive, hne.symm⟩).1 rfl
        · exact ((hall _).mpr ⟨hne, hlive⟩).2 rfl
      · intro hharm nodeId
        obtain ⟨hno, hno'⟩ := hharm hpre
        constructor
        · rintro ⟨hlive, _⟩
          exact ⟨fun heq => hno (heq ▸ hlive), hlive⟩
        · rintro ⟨_, hlive⟩
          exact ⟨hlive, fun heq => hno' (heq ▸ hlive)⟩
    · rw [deletedNode_nodeKey gone hpre]
      refine iff_of_true (fun nodeId => and_comm) fun h => absurd h hpre

theorem consistent_iff (virtualNodes : UInt32) (hvn : 1 ≤ virtualNodes.toNat) (ids : List String)
    (view : ClusterView) (h : Tracked hash64 virtualNodes ids view) (live : String → Prop) :
    Consistent view live ↔ ∀ nodeId, nodeId ∈ view.idList ↔ live nodeId := by
  constructor
  · exact fun hc => hc.ids
  · intro hids
    refine ⟨h.single, hids, fun nodeId => ?_⟩
    rw [mem_ring_nodes hash64 virtualNodes hvn ids view h, hids]

/-- In a consistent view the router picks nodes with an address exactly when there is one to
pick; without any it picks the local node. -/
theorem addressed_iff (view : ClusterView) (live : String → Prop) (h : Consistent view live) :
    Addressed hash64 view ↔ ∃ nodeId, live nodeId := by
  constructor
  · intro haddr
    by_contra hnone
    have hnil : view.ring.nodes = [] := by
      refine List.eq_nil_iff_forall_not_mem.mpr fun n hn => ?_
      exact hnone ⟨n, (h.ring n).mp hn⟩
    have hroute := route_empty hash64 ⟨"", 1⟩ view "" (by decide) hnil
    obtain ⟨addr, hfound⟩ := haddr _ _ _ hroute "" List.mem_cons_self
    have hmem := (grpcAddr_isSome_iff view "").mp ⟨addr, hfound⟩
    exact hnone ⟨"", (h.ids "").mp hmem⟩
  · rintro ⟨nodeId, hlive⟩ r seriesKey d hroute n hn
    have hne : view.ring.nodes ≠ [] := List.ne_nil_of_mem ((h.ring nodeId).mpr hlive)
    have hring := route_mem hash64 r view seriesKey d hroute hne n hn
    exact (grpcAddr_isSome_iff view n).mpr ((h.ids n).mpr ((h.ring n).mp hring))

section History
variable (virtualNodes : UInt32) (hvn : 1 ≤ virtualNodes.toNat) (etcd : Etcd)
  (hkeyed : Keyed etcd) (events : List NodeEvent)
  (hhash : NoCollision hash64 virtualNodes (ringIds etcd events))
include hvn hkeyed hhash

theorem consistent_viewAfter (n : Nat) :
    Consistent (viewAfter hash64 etcd virtualNodes (events.take n))
        (Registered etcd (events.take n)) ↔
      ∀ nodeId, nodeId ∈ (viewAfter hash64 etcd virtualNodes (events.take n)).idList ↔
        Registered etcd (events.take n) nodeId :=
  consistent_iff hash64 virtualNodes hvn _ _
    (tracked_viewAfter hash64 etcd hkeyed virtualNodes events hhash n) _

theorem consistent_step_iff (n : Nat) (e : NodeEvent) (he : events[n]? = some e)
    (hn : Consistent (viewAfter hash64 etcd virtualNodes (events.take n))
      (Registered etcd (events.take n))) :
    Consistent (viewAfter hash64 etcd virtualNodes (events.take (n + 1)))
        (Registered etcd (events.take (n + 1))) ↔
      Harmless (Registered etcd (events.take n)) e := by
  have htake : events.take (n + 1) = events.take n ++ [e] := by
    rw [List.take_add_one, he]
    rfl
  rw [consistent_viewAfter hash64 virtualNodes hvn etcd hkeyed events hhash (n + 1), htake,
    viewAfter_append]
  exact ids_step_iff hash64 etcd _ e _ hn.ids

theorem consistent_along_iff :
    (∀ n < events.length, Consistent (viewAfter hash64 etcd virtualNodes (events.take (n + 1)))
        (Registered etcd (events.take (n + 1)))) ↔
      ∀ n < events.length, ∀ e, events[n]? = some e →
        Harmless (Registered etcd (events.take n)) e := by
  apply forall_succ_iff fun n => Consistent (viewAfter hash64 etcd virtualNodes (events.take n))
    (Registered etcd (events.take n))
  · exact (consistent_viewAfter hash64 virtualNodes hvn etcd hkeyed events hhash 0).mpr
      fun nodeId => mem_loadedNodes etcd hkeyed nodeId
  · intro n hlt hn
    have hget : events[n]? = some events[n] := List.getElem?_eq_getElem hlt
    rw [consistent_step_iff hash64 virtualNodes hvn etcd hkeyed events hhash n _ hget hn, hget]
    simp only [Option.some.injEq, forall_eq']

end History

/-- After every event the view is consistent and gives every node the router picks an address
exactly when every event is harmless and leaves a node registered. -/
theorem view_consistency_iff (virtualNodes : UInt32) (hvn : 1 ≤ virtualNodes.toNat) (etcd : Etcd)
    (hkeyed : Keyed etcd) (events : List NodeEvent)
    (hhash : NoCollision hash64 virtualNodes (ringIds etcd events)) :
    (∀ n < events.length,
        Consistent (viewAfter hash64 etcd virtualNodes (events.take (n + 1)))
            (Registered etcd (events.take (n + 1))) ∧
          Addressed hash64 (viewAfter hash64 etcd virtualNodes (events.take (n + 1)))) ↔
      ∀ n e, events[n]? = some e → Harmless (Registered etcd (events.take n)) e ∧
        ∃ nodeId, Registered etcd (events.take (n + 1)) nodeId := by
  have hsteps := consistent_along_iff hash64 virtualNodes hvn etcd hkeyed events hhash
  constructor
  · intro hall n e he
    have hlt : n < events.length := (List.getElem?_eq_some_iff.mp he).1
    have hharmless := hsteps.mp (fun m hm => (hall m hm).1) n hlt e he
    obtain ⟨hnext, haddr⟩ := hall n hlt
    exact ⟨hharmless, (addressed_iff hash64 _ _ hnext).mp haddr⟩
  · intro hall n hlt
    have hnext := hsteps.mpr (fun m _ e he => (hall m e he).1) n hlt
    have he : events[n]? = some events[n] := List.getElem?_eq_getElem hlt
    exact ⟨hnext, (addressed_iff hash64 _ _ hnext).mpr (hall n _ he).2⟩

end Tracking

def oneNode : Etcd := Etcd.empty.put (nodeKey "a") (bareNode "a")

/-- Another node joins, the first one joins again with an address, and the other one leaves. -/
def rejoining : List NodeEvent :=
  [.joined (bareNode "b"), .joined ⟨"a", "a:4317", "", 1⟩, .left "b"]

theorem rejoining_harmless (n : Nat) (e : NodeEvent) (he : rejoining[n]? = some e) :
    Harmless (Registered oneNode (rejoining.take n)) e ∧
      ∃ nodeId, Registered oneNode (rejoining.take (n + 1)) nodeId := by
  match n, he with
  | 0, rfl => exact ⟨trivial, "b", (registered_joined oneNode [] _ "b").mpr (Or.inl rfl)⟩
  | 1, rfl =>
    exact ⟨trivial, "a",
      (registered_joined oneNode [.joined (bareNode "b")] _ "a").mpr (Or.inl rfl)⟩
  | 2, rfl =>
    refine ⟨fun hpre => absurd hpre (by decide), "a", ?_⟩
    refine (registered_left oneNode (rejoining.take 2) "b" "a").mpr ⟨by decide, ?_⟩
    exact (registered_joined oneNode [.joined (bareNode "b")] _ "a").mpr (Or.inl rfl)

theorem view_consistency_iff_rejoining :
    rejoining.length = 3 ∧
      ∀ n < 3, Consistent (viewAfter bytesHash oneNode 2 (rejoining.take (n + 1)))
          (Registered oneNode (rejoining.take (n + 1))) ∧
        Addressed bytesHash (viewAfter bytesHash oneNode 2 (rejoining.take (n + 1))) :=
  ⟨rfl, (view_consistency_iff bytesHash 2 (by decide) oneNode
    (fun e he _ => (Etcd.coherent_empty.put (bareNode "a")).keyed e he) rejoining
    (by decide +kernel)).mpr rejoining_harmless⟩

/-- The key of the node `/infralens/nodes/b` is taken to name `b` when it is deleted: the node
stays, and `b` is gone. When the last node has left, the router picks the local node, which has no
address. -/
theorem view_keeps_deleted :
    (viewAfter bytesHash .empty 1 [.joined (bareNode (nodeKey "b")), .joined (bareNode "b"),
        .left (nodeKey "b")]).idList = [nodeKey "b"] ∧
      (viewAfter bytesHash .empty 1 [.joined (bareNode (nodeKey "b")), .joined (bareNode "b"),
        .left (nodeKey "b")]).ring.nodes = [nodeKey "b"] ∧
      (⟨"a", 1⟩ : ShardRouter).route bytesHash
        (viewAfter bytesHash .empty 1 [.joined (bareNode "a"), .left "a"]) "logs" =
          some ⟨"a", [], true⟩ ∧
      (viewAfter bytesHash .empty 1 [.joined (bareNode "a"), .left "a"]).grpcAddr "a" = none := by
  decide +kernel

end InfraLens.Cluster
