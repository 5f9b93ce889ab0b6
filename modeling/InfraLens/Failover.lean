import InfraLens.LibDistinct
import InfraLens.Router

/-! Replica sets (ring.rs, router.rs): which nodes a shard has and in what order, what a leave and
a join change in that order, and what the router makes of it. -/
namespace InfraLens.Cluster
open LibMap LibDistinct

/-! ### The walk -/

def ConsistentHashRing.nodeCount (r : ConsistentHashRing) : Nat := r.nodes.toFinset.card

/-- The nodes in the order in which a shard reaches them. -/
def ConsistentHashRing.order (r : ConsistentHashRing) (shard : UInt64) : List String :=
  firsts [] (r.clockwise shard)

theorem takeDistinct_eq (count : Nat) (result nodes : List String) (h : result.length < count) :
    takeDistinct count result nodes =
      result ++ (firsts result nodes).take (count - result.length) := by
  induction nodes generalizing result with
  | nil => simp [takeDistinct, firsts]
  | cons node nodes ih =>
    by_cases hmem : node ∈ result
    · rw [takeDistinct, if_pos hmem, if_neg (Nat.not_le.mpr h), ih result h,
        firsts_cons_of_mem result node nodes hmem]
    · have hseen : firsts (result ++ [node]) nodes = firsts (node :: result) nodes :=
        firsts_congr _ _ nodes fun a => by simp [or_comm]
      have htake : (firsts result (node :: nodes)).take (count - result.length) =
          node :: (firsts (node :: result) nodes).take (count - (result ++ [node]).length) := by
        rw [firsts_cons_of_notMem result node nodes hmem, List.length_append, List.length_singleton]
        obtain ⟨k, hk⟩ : ∃ k, count - result.length = k + 1 := ⟨count - result.length - 1, by omega⟩
        rw [hk, List.take_succ_cons, show count - (result.length + 1) = k by omega]
      rw [takeDistinct, if_neg hmem, htake]
      split
      next hfull =>
        have hzero : count - (result ++ [node]).length = 0 := by omega
        rw [hzero, List.take_zero]
      next hmore =>
        rw [ih (result ++ [node]) (Nat.not_le.mp hmore), hseen, List.append_assoc]
        rfl

theorem replicaNodes_eq (r : ConsistentHashRing) (hne : r.ring.entries ≠ []) (shard : UInt64)
    (count : Nat) (hcount : 1 ≤ count) :
    r.replicaNodes shard count = .ok ((r.order shard).take count) := by
  have hempty : ¬ r.ring.entries.isEmpty = true := fun h => hne (List.isEmpty_iff.mp h)
  rw [ConsistentHashRing.replicaNodes, if_neg hempty, takeDistinct_eq count [] _ hcount]
  rfl

theorem primaryFor_eq (r : ConsistentHashRing) (shard : UInt64) :
    r.primaryFor shard =
      match (r.order shard).head? with
      | some node => .ok node
      | none => .error .emptyRing := by
  rw [ConsistentHashRing.order, head?_firsts, ConsistentHashRing.clockwise, List.head?_map,
    List.head?_append, ConsistentHashRing.primaryFor]
  cases hentries : r.ring.entries with
  | nil => simp [BTreeMap.rangeFrom, hentries]
  | cons e es =>
    cases (r.ring.rangeFrom shard).head? <;> rfl

theorem primaryFor_eq_ok_iff (r : ConsistentHashRing) (shard : UInt64) (p : String) :
    r.primaryFor shard = .ok p ↔ (r.order shard).head? = some p := by
  rw [primaryFor_eq]
  cases (r.order shard).head? <;> simp

theorem mem_clockwise (r : ConsistentHashRing) (shard : UInt64) (node : String) :
    node ∈ r.clockwise shard ↔ node ∈ r.nodes := by
  rw [ConsistentHashRing.clockwise, List.map_append, List.mem_append]
  constructor
  · intro h
    cases h with
    | inl hrange =>
      obtain ⟨e, he, rfl⟩ := List.mem_map.mp hrange
      exact List.mem_map_of_mem (rangeFrom_subset r shard e he)
    | inr hall => exact hall
  · exact Or.inr

theorem mem_order (r : ConsistentHashRing) (shard : UInt64) (node : String) :
    node ∈ r.order shard ↔ node ∈ r.nodes := by
  rw [ConsistentHashRing.order, mem_firsts, mem_clockwise]
  simp

theorem nodup_order (r : ConsistentHashRing) (shard : UInt64) : (r.order shard).Nodup :=
  nodup_firsts [] _

theorem length_order (r : ConsistentHashRing) (shard : UInt64) :
    (r.order shard).length = r.nodeCount := by
  rw [ConsistentHashRing.order, length_firsts, ConsistentHashRing.nodeCount]
  congr 1
  ext node
  rw [List.mem_toFinset, List.mem_toFinset, mem_clockwise]

theorem order_eq_nil_iff (r : ConsistentHashRing) (shard : UInt64) :
    r.order shard = [] ↔ r.ring.entries = [] := by
  rw [List.eq_nil_iff_forall_not_mem]
  simp only [mem_order]
  rw [← List.eq_nil_iff_forall_not_mem, ConsistentHashRing.nodes, List.map_eq_nil_iff]

/-- The replicas of a shard: as many distinct nodes of the ring as there are, up to the count, the
primary first, and one more only adds to them. -/
theorem replica_sets (r : ConsistentHashRing) (hne : r.ring.entries ≠ []) (shard : UInt64)
    (k : Nat) (hk : 1 ≤ k) :
    ∃ nodes more, r.replicaNodes shard k = .ok nodes ∧ nodes.length = min k r.nodeCount ∧
      nodes.Nodup ∧ (∀ n ∈ nodes, n ∈ r.nodes) ∧
      (∃ primary, nodes.head? = some primary ∧ r.primaryFor shard = .ok primary) ∧
      r.replicaNodes shard (k + 1) = .ok more ∧ nodes <+: more := by
  refine ⟨(r.order shard).take k, (r.order shard).take (k + 1), replicaNodes_eq r hne shard k hk,
    ?_, ?_, ?_, ?_, replicaNodes_eq r hne shard (k + 1) (Nat.le_add_left 1 k), ?_⟩
  · rw [List.length_take, length_order]
  · exact (nodup_order r shard).sublist (List.take_sublist k _)
  · exact fun n hn => (mem_order r shard n).mp (List.mem_of_mem_take hn)
  · have horder : r.order shard ≠ [] := fun h => hne ((order_eq_nil_iff r shard).mp h)
    obtain ⟨primary, rest, hcons⟩ := List.exists_cons_of_ne_nil horder
    refine ⟨primary, ?_, ?_⟩
    · rw [hcons, List.head?_take, if_neg (Nat.one_le_iff_ne_zero.mp hk), List.head?_cons]
    · rw [primaryFor_eq, hcons, List.head?_cons]
  · exact List.take_prefix_take_left (Nat.le_succ k)

def threeJoins : List Call := [.addNode "a", .addNode "b", .addNode "c"]

def threeNodes : ConsistentHashRing := ringAfter bytesHash 2 threeJoins

theorem replica_sets_two :
    ∃ nodes more, threeNodes.replicaNodes 0 2 = .ok nodes ∧
      nodes.length = min 2 threeNodes.nodeCount ∧
      nodes.Nodup ∧ (∀ n ∈ nodes, n ∈ threeNodes.nodes) ∧
      (∃ primary, nodes.head? = some primary ∧ threeNodes.primaryFor 0 = .ok primary) ∧
      threeNodes.replicaNodes 0 (2 + 1) = .ok more ∧ nodes <+: more :=
  replica_sets threeNodes (by decide +kernel) 0 2 (by decide)

/-! ### Leaves and joins -/

/-- The preference list of a shard: its replicas when all the live nodes are asked for, and none
where the ring is empty. -/
def ConsistentHashRing.preference (r : ConsistentHashRing) (shard : UInt64) (live : Nat) :
    List String := (r.replicaNodes shard live).toOption.getD []

section Failover
variable (hash64 : List UInt8 → UInt64)

theorem preference_eq (r : ConsistentHashRing) (live : Finset String) (h : Placed hash64 r live)
    (shard : UInt64) : r.preference shard live.card = r.order shard := by
  by_cases hne : r.ring.entries = []
  · rw [(order_eq_nil_iff r shard).mpr hne, ConsistentHashRing.preference,
      ConsistentHashRing.replicaNodes, hne]
    rfl
  · have hsubset : (r.order shard).toFinset ⊆ live := by
      intro node hnode
      rw [List.mem_toFinset, mem_order] at hnode
      obtain ⟨e, he, rfl⟩ := List.mem_map.mp hnode
      exact ((h e.1 e.2).mp he).1
    have hlength : (r.order shard).length ≤ live.card := by
      rw [← List.toFinset_card_of_nodup (nodup_order r shard)]
      exact Finset.card_le_card hsubset
    have hpos : 1 ≤ (r.order shard).length :=
      List.length_pos_iff.mpr fun hnil => hne ((order_eq_nil_iff r shard).mp hnil)
    rw [ConsistentHashRing.preference, replicaNodes_eq r hne shard live.card (hpos.trans hlength),
      List.take_of_length_le hlength]
    rfl

theorem entries_without (r r' : ConsistentHashRing) (live : Finset String) (n : String)
    (h : Placed hash64 r live) (h' : Placed hash64 r' (live.erase n))
    (hvn : r'.virtualNodes = r.virtualNodes) :
    r'.ring.entries = r.ring.entries.filter fun e => e.2 ≠ n := by
  have hring : r'.ring = ⟨r.ring.entries.filter fun e => e.2 ≠ n, r.ring.sorted.filter _⟩ := by
    apply BTreeMap.eq_of_mem
    rintro ⟨pos, node⟩
    rw [h' pos node, List.mem_filter, h pos node, hvn, Finset.mem_erase, decide_eq_true_iff]
    exact ⟨fun ⟨⟨hne, hlive⟩, hpos⟩ => ⟨⟨hlive, hpos⟩, hne⟩,
      fun ⟨⟨hlive, hpos⟩, hne⟩ => ⟨⟨hne, hlive⟩, hpos⟩⟩
  rw [hring]

theorem order_without (r r' : ConsistentHashRing) (live : Finset String) (n : String)
    (h : Placed hash64 r live) (h' : Placed hash64 r' (live.erase n))
    (hvn : r'.virtualNodes = r.virtualNodes) (shard : UInt64) :
    r'.order shard = (r.order shard).filter (· ≠ n) := by
  have hentries := entries_without hash64 r r' live n h h' hvn
  have hclock : r'.clockwise shard = (r.clockwise shard).filter (· ≠ n) := by
    rw [ConsistentHashRing.clockwise, ConsistentHashRing.clockwise, BTreeMap.rangeFrom,
      BTreeMap.rangeFrom, hentries, List.filter_comm, ← List.filter_append, List.filter_map]
    rfl
  rw [ConsistentHashRing.order, hclock, firsts_filter]
  rfl

theorem preference_without (r r' : ConsistentHashRing) (live : Finset String) (n : String)
    (h : Placed hash64 r live) (h' : Placed hash64 r' (live.erase n))
    (hvn : r'.virtualNodes = r.virtualNodes) (shard : UInt64) :
    r'.preference shard (live.erase n).card =
      (r.preference shard live.card).filter (· ≠ n) := by
  rw [preference_eq hash64 r live h, preference_eq hash64 r' _ h']
  exact order_without hash64 r r' live n h h' hvn shard

omit hash64 in
theorem head?_without (nodes : List String) (hnodup : nodes.Nodup) (n : String) :
    (nodes.filter (· ≠ n)).head? = if nodes.head? = some n then nodes[1]? else nodes.head? := by
  cases nodes with
  | nil => rfl
  | cons first rest =>
    by_cases hfirst : first = n
    · subst hfirst
      have hrest : ∀ a ∈ rest, decide (a ≠ first) = true := fun a ha =>
        decide_eq_true fun heq => (List.nodup_cons.mp hnodup).1 (heq ▸ ha)
      rw [List.filter_cons_of_neg (by simp), List.filter_eq_self.mpr hrest, List.head?_cons,
        if_pos rfl, List.getElem?_cons_succ, List.head?_eq_getElem?]
    · rw [List.filter_cons_of_pos (by simp [hfirst]), List.head?_cons, List.head?_cons,
        if_neg (by simp [hfirst])]

/-- The primary changes only where it was the node that is gone, and then it is the node that was
next. -/
theorem primaryFor_without (r r' : ConsistentHashRing) (live : Finset String) (n : String)
    (h : Placed hash64 r live) (h' : Placed hash64 r' (live.erase n))
    (hvn : r'.virtualNodes = r.virtualNodes) (shard : UInt64) (q : String) :
    r'.primaryFor shard = .ok q ↔
      r.primaryFor shard = .ok q ∧ q ≠ n ∨
        r.primaryFor shard = .ok n ∧ (r.preference shard live.card)[1]? = some q := by
  have hhead := head?_without (r.order shard) (nodup_order r shard) n
  rw [primaryFor_eq_ok_iff, primaryFor_eq_ok_iff, primaryFor_eq_ok_iff,
    order_without hash64 r r' live n h h' hvn, hhead, preference_eq hash64 r live h]
  split
  next hfirst =>
    rw [hfirst]
    simp only [Option.some.injEq, true_and]
    exact ⟨Or.inr, fun hor => hor.resolve_left fun hq => hq.2 hq.1.symm⟩
  next hfirst =>
    constructor
    · exact fun hq => Or.inl ⟨hq, fun heq => hfirst (heq ▸ hq)⟩
    · intro hor
      cases hor with
      | inl hq => exact hq.1
      | inr hn => exact absurd hn.1 hfirst

theorem placed_next (virtualNodes : UInt32) (calls : List Call) (c : Call)
    (hhash : NoCollision hash64 virtualNodes (c.nodeId :: calls.map Call.nodeId)) :
    Placed hash64 (ringAfter hash64 virtualNodes calls) (liveNodes calls) ∧
      Placed hash64 (c.apply hash64 (ringAfter hash64 virtualNodes calls))
        (c.live (liveNodes calls)) := by
  have hold : ∀ d ∈ calls, d.nodeId ∈ c.nodeId :: calls.map Call.nodeId := fun d hd =>
    List.mem_cons_of_mem _ (List.mem_map_of_mem hd)
  have hnew : ∀ d ∈ calls ++ [c], d.nodeId ∈ c.nodeId :: calls.map Call.nodeId := by
    intro d hd
    cases List.mem_append.mp hd with
    | inl hd => exact hold d hd
    | inr hd => exact List.mem_singleton.mp hd ▸ List.mem_cons_self
  have hnext := (placed_ringAfter hash64 virtualNodes (calls ++ [c]) _ hhash hnew).1
  rw [ringAfter, liveNodes, List.foldl_append, List.foldl_append] at hnext
  exact ⟨(placed_ringAfter hash64 virtualNodes calls _ hhash hold).1, hnext⟩

/-- A leave deletes the node from every preference list, and a shard whose primary it was goes to
its first replica. A join is the inverse: deleting the new node gives the old preference list, and
a shard whose primary changes goes to the new node. -/
theorem failover_keeps_order (virtualNodes : UInt32) (calls : List Call) (n : String)
    (hhash : NoCollision hash64 virtualNodes (n :: calls.map Call.nodeId)) :
    (n ∈ liveNodes calls → ∀ shard,
      ((ringAfter hash64 virtualNodes calls).removeNode hash64 n).preference shard
          ((liveNodes calls).erase n).card =
        ((ringAfter hash64 virtualNodes calls).preference shard
          (liveNodes calls).card).filter (· ≠ n) ∧
      ∀ q, ((ringAfter hash64 virtualNodes calls).removeNode hash64 n).primaryFor shard = .ok q ↔
        (ringAfter hash64 virtualNodes calls).primaryFor shard = .ok q ∧ q ≠ n ∨
          (ringAfter hash64 virtualNodes calls).primaryFor shard = .ok n ∧
            ((ringAfter hash64 virtualNodes calls).preference shard
              (liveNodes calls).card)[1]? = some q) ∧
    (n ∉ liveNodes calls → ∀ shard,
      (((ringAfter hash64 virtualNodes calls).addNode hash64 n).preference shard
          (insert n (liveNodes calls)).card).filter (· ≠ n) =
        (ringAfter hash64 virtualNodes calls).preference shard (liveNodes calls).card ∧
      ∀ q, ((ringAfter hash64 virtualNodes calls).addNode hash64 n).primaryFor shard = .ok q →
        q = n ∨ (ringAfter hash64 virtualNodes calls).primaryFor shard = .ok q) := by
  constructor
  · intro _ shard
    obtain ⟨hring, hleft⟩ := placed_next hash64 virtualNodes calls (.removeNode n) hhash
    exact ⟨preference_without hash64 _ _ _ n hring hleft rfl shard,
      primaryFor_without hash64 _ _ _ n hring hleft rfl shard⟩
  · intro hn shard
    obtain ⟨hring, hjoined⟩ := placed_next hash64 virtualNodes calls (.addNode n) hhash
    -- the old ring is the new one without the node
    have hlive : (Call.live (liveNodes calls) (.addNode n)).erase n = liveNodes calls :=
      Finset.erase_insert hn
    have hback : Placed hash64 (ringAfter hash64 virtualNodes calls)
        ((Call.live (liveNodes calls) (.addNode n)).erase n) := hlive.symm ▸ hring
    have hpreference := preference_without hash64 _ _ _ n hjoined hback rfl shard
    rw [hlive] at hpreference
    refine ⟨hpreference.symm, fun q hq => ?_⟩
    by_cases hqn : q = n
    · exact Or.inl hqn
    · exact Or.inr ((primaryFor_without hash64 _ _ _ n hjoined hback rfl shard q).mpr
        (Or.inl ⟨hq, hqn⟩))

end Failover

/-- "b" leaves, and its shards go to "c". -/
theorem failover_keeps_order_of_three :
    (threeNodes.removeNode bytesHash "b").preference 6400000
        ((liveNodes threeJoins).erase "b").card =
        (threeNodes.preference 6400000 (liveNodes threeJoins).card).filter (· ≠ "b") ∧
      (threeNodes.removeNode bytesHash "b").primaryFor 6400000 = .ok "c" := by
  have hleave := (failover_keeps_order bytesHash 2 threeJoins "b" (by decide +kernel)).1
    (by decide) 6400000
  exact ⟨hleave.1, (hleave.2 "c").mpr (Or.inr ⟨by decide +kernel, by decide +kernel⟩)⟩

/-! ### Routing -/

/-- What a routing decision should be, by how many nodes the ring has. -/
structure RoutesRight (hash64 : List UInt8 → UInt64) (r : ShardRouter) (view : ClusterView)
    (seriesKey : String) (d : RoutingDecision) : Prop where
  decided : r.route hash64 view seriesKey = some d
  distinct : d.replicas.Nodup
  primary : d.primary ∉ d.replicas
  number : d.replicas.length =
    if 0 < r.repFactor.toNat ∧ 0 < view.ring.nodeCount then
      min r.repFactor.toNat view.ring.nodeCount - 1
    else 0
  isLocal : d.isLocal = true ↔ d.primary = r.localId

theorem route_eq (hash64 : List UInt8 → UInt64) (r : ShardRouter) (view : ClusterView)
    (seriesKey : String) (hne : view.ring.ring.entries ≠ []) (hfactor : r.repFactor ≠ 0) :
    ∃ primary rest, view.ring.order (hash64 seriesKey.toByteArray.data.toList) = primary :: rest ∧
      r.route hash64 view seriesKey =
        some ⟨primary, rest.take (r.repFactor.toNat - 1), primary = r.localId⟩ := by
  obtain ⟨shard, hshard⟩ : ∃ shard, shard = hash64 seriesKey.toByteArray.data.toList := ⟨_, rfl⟩
  have hpos : 1 ≤ r.repFactor.toNat := by
    rw [Nat.one_le_iff_ne_zero]
    exact fun hzero => hfactor (UInt32.toNat_inj.mp hzero)
  have horder : view.ring.order shard ≠ [] := fun h => hne ((order_eq_nil_iff view.ring shard).mp h)
  obtain ⟨primary, rest, hcons⟩ := List.exists_cons_of_ne_nil horder
  have hprimary : view.ring.primaryFor shard = .ok primary := by
    rw [primaryFor_eq_ok_iff, hcons, List.head?_cons]
  have hnodes := replicaNodes_eq view.ring hne shard r.repFactor.toNat hpos
  have hnodup := nodup_order view.ring shard
  rw [hcons, List.nodup_cons] at hnodup
  obtain ⟨k, hk⟩ : ∃ k, r.repFactor.toNat = k + 1 := ⟨r.repFactor.toNat - 1, by omega⟩
  have hfilter : ((primary :: rest).take (k + 1)).filter (· ≠ primary) = rest.take k := by
    have hrest : ∀ a ∈ rest.take k, decide (a ≠ primary) = true := fun a ha =>
      decide_eq_true fun heq => hnodup.1 (heq ▸ List.mem_of_mem_take ha)
    rw [List.take_succ_cons, List.filter_cons_of_neg (by simp), List.filter_eq_self.mpr hrest]
  refine ⟨primary, rest, hshard ▸ hcons, ?_⟩
  rw [hcons, hk] at hnodes
  simp only [ShardRouter.route, ← hshard, hprimary, hk, hnodes, if_neg hfactor]
  change some (RoutingDecision.mk primary ((((primary :: rest).take (k + 1)).filter
    (· ≠ primary)).take k) _) = _
  rw [hfilter, List.take_take, Nat.min_self]
  rfl

theorem routesRight_empty (hash64 : List UInt8 → UInt64) (r : ShardRouter) (view : ClusterView)
    (seriesKey : String) (hnil : view.ring.ring.entries = []) (hfactor : r.repFactor ≠ 0) :
    RoutesRight hash64 r view seriesKey ⟨r.localId, [], true⟩ := by
  have hnodes : view.ring.nodes = [] := by rw [ConsistentHashRing.nodes, hnil, List.map_nil]
  have hcount : view.ring.nodeCount = 0 := by
    rw [ConsistentHashRing.nodeCount, hnodes]
    rfl
  refine ⟨route_empty hash64 r view seriesKey hfactor hnodes, List.nodup_nil, List.not_mem_nil, ?_,
    iff_of_true rfl rfl⟩
  rw [hcount, if_neg fun h => Nat.lt_irrefl 0 h.2]
  rfl

theorem routesRight_nonempty (hash64 : List UInt8 → UInt64) (r : ShardRouter)
    (view : ClusterView) (seriesKey : String) (hne : view.ring.ring.entries ≠ [])
    (hfactor : r.repFactor ≠ 0) : ∃ d, RoutesRight hash64 r view seriesKey d := by
  obtain ⟨primary, rest, horder, hroute⟩ := route_eq hash64 r view seriesKey hne hfactor
  have hnodup := nodup_order view.ring (hash64 seriesKey.toByteArray.data.toList)
  have hcount := length_order view.ring (hash64 seriesKey.toByteArray.data.toList)
  rw [horder, List.nodup_cons] at hnodup
  rw [horder, List.length_cons] at hcount
  have hpos : 0 < r.repFactor.toNat := by
    rw [Nat.pos_iff_ne_zero]
    exact fun hzero => hfactor (UInt32.toNat_inj.mp hzero)
  refine ⟨_, hroute, ?_, ?_, ?_, decide_eq_true_iff⟩
  · exact hnodup.2.sublist (List.take_sublist _ rest)
  · exact fun hmem => hnodup.1 (List.mem_of_mem_take hmem)
  · rw [if_pos ⟨hpos, by omega⟩, List.length_take]
    omega

/-- Routing is right exactly when the replication factor is not 0, on which it underflows. -/
theorem routing_iff (hash64 : List UInt8 → UInt64) (r : ShardRouter) (view : ClusterView)
    (seriesKey : String) :
    (∃ d, RoutesRight hash64 r view seriesKey d) ↔ r.repFactor ≠ 0 := by
  constructor
  · intro hright hzero
    obtain ⟨d, hd⟩ := hright
    have hnone : r.route hash64 view seriesKey = none := if_pos hzero
    rw [hd.decided] at hnone
    cases hnone
  · intro hfactor
    by_cases hnil : view.ring.ring.entries = []
    · exact ⟨_, routesRight_empty hash64 r view seriesKey hnil hfactor⟩
    · exact routesRight_nonempty hash64 r view seriesKey hnil hfactor

/-- A replication factor of 0 stops the router on every view. -/
theorem routing_underflows :
    (⟨"a", 0⟩ : ShardRouter).route bytesHash ⟨[bareNode "a"], threeNodes⟩ "logs" = none := rfl

end InfraLens.Cluster
