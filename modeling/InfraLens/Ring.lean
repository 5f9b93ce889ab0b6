import InfraLens.LibMap
import Mathlib.Data.Finset.Basic

/-! The consistent hash ring (infralens-cluster, ring.rs), and what it depends on after any
history of joins and leaves. The hash function is a parameter. -/
namespace InfraLens.Cluster
open LibMap

scoped instance positionOrder : LinearOrder UInt64 :=
  LinearOrder.lift' UInt64.toNat fun _ _ h => UInt64.toNat_inj.mp h

inductive ClusterError where
  | emptyRing
  deriving DecidableEq

/-- `format!("{node_id}#{i}")`. -/
def label (nodeId : String) (i : Nat) : String := nodeId ++ "#" ++ i.repr

structure ConsistentHashRing where
  ring : BTreeMap UInt64 String
  virtualNodes : UInt32
  version : UInt64

def ConsistentHashRing.new (virtualNodes : UInt32) : ConsistentHashRing :=
  ⟨.empty, virtualNodes, 0⟩

section Hash
variable (hash64 : List UInt8 → UInt64)

def position (nodeId : String) (i : Nat) : UInt64 :=
  hash64 (label nodeId i).toByteArray.data.toList

def positions (virtualNodes : UInt32) (nodeId : String) : List UInt64 :=
  (List.range virtualNodes.toNat).map (position hash64 nodeId)

def ConsistentHashRing.addNode (r : ConsistentHashRing) (nodeId : String) : ConsistentHashRing where
  ring := (positions hash64 r.virtualNodes nodeId).foldl (fun m pos => m.insert pos nodeId) r.ring
  virtualNodes := r.virtualNodes
  version := r.version + 1

def ConsistentHashRing.removeNode (r : ConsistentHashRing) (nodeId : String) :
    ConsistentHashRing where
  ring := (positions hash64 r.virtualNodes nodeId).foldl (fun m pos => m.remove pos) r.ring
  virtualNodes := r.virtualNodes
  version := r.version + 1

end Hash

def ConsistentHashRing.primaryFor (r : ConsistentHashRing) (shard : UInt64) :
    Except ClusterError String :=
  if r.ring.entries.isEmpty then .error .emptyRing
  else
    match (r.ring.rangeFrom shard).head?.or r.ring.entries.head? with
    | some e => .ok e.2
    | none => .error .emptyRing

/-- The nodes clockwise from a position: to the end of the ring, then from its start. -/
def ConsistentHashRing.clockwise (r : ConsistentHashRing) (shard : UInt64) : List String :=
  (r.ring.rangeFrom shard ++ r.ring.entries).map Prod.snd

/-- The loop of `replica_nodes`; `result` also has the nodes already seen. The length is tested
after a node is taken, so a count of 0 still takes one. -/
def takeDistinct (count : Nat) : List String → List String → List String
  | result, [] => result
  | result, node :: nodes =>
    let result := if node ∈ result then result else result ++ [node]
    if count ≤ result.length then result else takeDistinct count result nodes

def ConsistentHashRing.replicaNodes (r : ConsistentHashRing) (shard : UInt64) (count : Nat) :
    Except ClusterError (List String) :=
  if r.ring.entries.isEmpty then .error .emptyRing
  else .ok (takeDistinct count [] (r.clockwise shard))

/-! ### Labels -/

theorem append_cons_inj {α : Type} (x : α) (as bs cs ds : List α) (hb : x ∉ bs) (hd : x ∉ ds)
    (h : as ++ x :: bs = cs ++ x :: ds) : as = cs ∧ bs = ds := by
  -- the first x from the right is where both sides are cut
  induction as generalizing cs with
  | nil =>
    cases cs with
    | nil => exact ⟨rfl, (List.cons.inj h).2⟩
    | cons c cs =>
      refine absurd ?_ hb
      rw [(List.cons.inj h).2]
      simp
  | cons a as ih =>
    cases cs with
    | nil =>
      refine absurd ?_ hd
      rw [← (List.cons.inj h).2]
      simp
    | cons c cs =>
      obtain ⟨hac, hrest⟩ := List.cons.inj h
      obtain ⟨has, hbs⟩ := ih cs hrest
      exact ⟨by rw [hac, has], hbs⟩

theorem hash_notMem_digits (i : Nat) : '#' ∉ Nat.toDigits 10 i := by
  intro h
  exact absurd (Nat.isDigit_of_mem_toDigits (by decide) (by decide) h) (by decide)

/-- Whatever characters the ids have, the last `#` of a label is the one before the number. -/
theorem label_inj (a b : String) (i j : Nat) (h : label a i = label b j) : a = b ∧ i = j := by
  have hlist := congrArg String.toList h
  simp only [label, String.toList_append, Nat.repr_eq_ofList_toDigits, String.toList_ofList,
    List.append_assoc] at hlist
  obtain ⟨hab, hij⟩ := append_cons_inj '#' _ _ _ _ (hash_notMem_digits i) (hash_notMem_digits j)
    hlist
  refine ⟨String.toList_inj.mp hab, ?_⟩
  calc i = Nat.ofDigitChars 10 (Nat.toDigits 10 i) 0 :=
        (Nat.ofDigitChars_toDigits (by decide) (by decide)).symm
    _ = Nat.ofDigitChars 10 (Nat.toDigits 10 j) 0 := by rw [hij]
    _ = j := Nat.ofDigitChars_toDigits (by decide) (by decide)

/-! ### Histories -/

inductive Call where
  | addNode (nodeId : String)
  | removeNode (nodeId : String)
  deriving DecidableEq

def Call.nodeId : Call → String
  | .addNode nodeId => nodeId
  | .removeNode nodeId => nodeId

def Call.live (live : Finset String) : Call → Finset String
  | .addNode nodeId => insert nodeId live
  | .removeNode nodeId => live.erase nodeId

def liveNodes (calls : List Call) : Finset String := calls.foldl Call.live ∅

section Agreement
variable (hash64 : List UInt8 → UInt64)

def Call.apply (r : ConsistentHashRing) : Call → ConsistentHashRing
  | .addNode nodeId => r.addNode hash64 nodeId
  | .removeNode nodeId => r.removeNode hash64 nodeId

def ringAfter (virtualNodes : UInt32) (calls : List Call) : ConsistentHashRing :=
  calls.foldl (Call.apply hash64) (.new virtualNodes)

/-- Distinct labels of these nodes have distinct hashes. -/
def NoCollision (virtualNodes : UInt32) (nodes : List String) : Prop :=
  ∀ a ∈ nodes, ∀ b ∈ nodes, ∀ i < virtualNodes.toNat, ∀ j < virtualNodes.toNat,
    label a i ≠ label b j → position hash64 a i ≠ position hash64 b j

instance (virtualNodes : UInt32) (nodes : List String) :
    Decidable (NoCollision hash64 virtualNodes nodes) :=
  inferInstanceAs (Decidable (∀ a ∈ nodes, ∀ b ∈ nodes, ∀ i < virtualNodes.toNat,
    ∀ j < virtualNodes.toNat, label a i ≠ label b j → position hash64 a i ≠ position hash64 b j))

/-- The ring has the positions of the live nodes, each with its node, and no others. -/
def Placed (r : ConsistentHashRing) (live : Finset String) : Prop :=
  ∀ pos node, (pos, node) ∈ r.ring.entries ↔
    node ∈ live ∧ pos ∈ positions hash64 r.virtualNodes node

theorem node_of_position (virtualNodes : UInt32) (nodes : List String)
    (h : NoCollision hash64 virtualNodes nodes) (a b : String) (ha : a ∈ nodes) (hb : b ∈ nodes)
    (pos : UInt64) (hpa : pos ∈ positions hash64 virtualNodes a)
    (hpb : pos ∈ positions hash64 virtualNodes b) : a = b := by
  obtain ⟨i, hi, rfl⟩ := List.mem_map.mp hpa
  obtain ⟨j, hj, hij⟩ := List.mem_map.mp hpb
  by_contra hne
  refine h a ha b hb i (List.mem_range.mp hi) j (List.mem_range.mp hj) ?_ hij.symm
  exact fun hl => hne (label_inj a b i j hl).1

omit hash64 in
theorem mem_foldl_insert (ps : List UInt64) (node : String) (m : BTreeMap UInt64 String)
    (e : UInt64 × String) :
    e ∈ (ps.foldl (fun m pos => m.insert pos node) m).entries ↔
      e.1 ∈ ps ∧ e.2 = node ∨ e ∈ m.entries ∧ e.1 ∉ ps := by
  induction ps generalizing m with
  | nil => simp
  | cons p ps ih =>
    rw [List.foldl_cons, ih, BTreeMap.mem_insert, Prod.ext_iff, List.mem_cons]
    grind

omit hash64 in
theorem mem_foldl_remove (ps : List UInt64) (m : BTreeMap UInt64 String) (e : UInt64 × String) :
    e ∈ (ps.foldl (fun m pos => m.remove pos) m).entries ↔ e ∈ m.entries ∧ e.1 ∉ ps := by
  induction ps generalizing m with
  | nil => simp
  | cons p ps ih =>
    rw [List.foldl_cons, ih, BTreeMap.mem_remove, List.mem_cons]
    grind

theorem placed_apply (r : ConsistentHashRing) (live : Finset String) (nodes : List String)
    (h : NoCollision hash64 r.virtualNodes nodes) (hlive : ∀ a ∈ live, a ∈ nodes)
    (c : Call) (hc : c.nodeId ∈ nodes) (hr : Placed hash64 r live) :
    Placed hash64 (c.apply hash64 r) (c.live live) := by
  intro pos node
  have hown : node ∈ live → pos ∈ positions hash64 r.virtualNodes node →
      pos ∈ positions hash64 r.virtualNodes c.nodeId → node = c.nodeId := fun hn hp hq =>
    node_of_position hash64 r.virtualNodes nodes h node c.nodeId (hlive node hn) hc pos hp hq
  cases c with
  | addNode nodeId =>
    change _ ∈ (List.foldl _ _ _ : BTreeMap UInt64 String).entries ↔ node ∈ insert nodeId live ∧ _
    rw [mem_foldl_insert, hr pos node, Finset.mem_insert]
    constructor
    · intro hm
      obtain ⟨hp, rfl⟩ | ⟨⟨hn, hp⟩, _⟩ := hm
      · exact ⟨Or.inl rfl, hp⟩
      · exact ⟨Or.inr hn, hp⟩
    · rintro ⟨hn, hp⟩
      by_cases hq : pos ∈ positions hash64 r.virtualNodes nodeId
      · refine Or.inl ⟨hq, ?_⟩
        cases hn with
        | inl heq => exact heq
        | inr hm => exact hown hm hp hq
      · cases hn with
        | inl heq => exact absurd (heq ▸ hp) hq
        | inr hm => exact Or.inr ⟨⟨hm, hp⟩, hq⟩
  | removeNode nodeId =>
    change _ ∈ (List.foldl _ _ _ : BTreeMap UInt64 String).entries ↔ node ∈ live.erase nodeId ∧ _
    rw [mem_foldl_remove, hr pos node, Finset.mem_erase]
    constructor
    · rintro ⟨⟨hn, hp⟩, hq⟩
      exact ⟨⟨fun heq => hq (heq ▸ hp), hn⟩, hp⟩
    · rintro ⟨⟨hne, hn⟩, hp⟩
      exact ⟨⟨hn, hp⟩, fun hq => hne (hown hn hp hq)⟩

theorem virtualNodes_apply (r : ConsistentHashRing) (c : Call) :
    (c.apply hash64 r).virtualNodes = r.virtualNodes := by
  cases c <;> rfl

omit hash64 in
theorem live_subset (live : Finset String) (nodes : List String) (hlive : ∀ a ∈ live, a ∈ nodes)
    (c : Call) (hc : c.nodeId ∈ nodes) : ∀ a ∈ c.live live, a ∈ nodes := by
  intro a ha
  cases c with
  | addNode nodeId =>
    cases Finset.mem_insert.mp ha with
    | inl heq => exact heq ▸ hc
    | inr hm => exact hlive a hm
  | removeNode nodeId => exact hlive a (Finset.mem_of_mem_erase ha)

theorem placed_calls (calls : List Call) (r : ConsistentHashRing) (live : Finset String)
    (nodes : List String) (h : NoCollision hash64 r.virtualNodes nodes)
    (hlive : ∀ a ∈ live, a ∈ nodes) (hcalls : ∀ c ∈ calls, c.nodeId ∈ nodes)
    (hr : Placed hash64 r live) :
    Placed hash64 (calls.foldl (Call.apply hash64) r) (calls.foldl Call.live live) ∧
      (calls.foldl (Call.apply hash64) r).virtualNodes = r.virtualNodes := by
  induction calls generalizing r live with
  | nil => exact ⟨hr, rfl⟩
  | cons c calls ih =>
    have hc := hcalls c List.mem_cons_self
    have hvn := virtualNodes_apply hash64 r c
    obtain ⟨hplaced, hsame⟩ := ih (c.apply hash64 r) (c.live live) (hvn ▸ h)
      (live_subset live nodes hlive c hc) (fun d hd => hcalls d (List.mem_cons_of_mem c hd))
      (placed_apply hash64 r live nodes h hlive c hc hr)
    exact ⟨hplaced, hsame.trans hvn⟩

theorem placed_ringAfter (virtualNodes : UInt32) (calls : List Call) (nodes : List String)
    (h : NoCollision hash64 virtualNodes nodes) (hcalls : ∀ c ∈ calls, c.nodeId ∈ nodes) :
    Placed hash64 (ringAfter hash64 virtualNodes calls) (liveNodes calls) ∧
      (ringAfter hash64 virtualNodes calls).virtualNodes = virtualNodes :=
  placed_calls hash64 calls (.new virtualNodes) ∅ nodes h (by simp) hcalls
    (fun pos node => by simp [ConsistentHashRing.new, BTreeMap.empty])

/-- Two histories that leave the same nodes live leave the same ring, and the same answers. -/
theorem ring_agreement (virtualNodes : UInt32) (calls calls' : List Call)
    (h : NoCollision hash64 virtualNodes ((calls ++ calls').map Call.nodeId))
    (hlive : liveNodes calls = liveNodes calls') :
    (∀ a b i j, label a i = label b j → a = b ∧ i = j) ∧
      (ringAfter hash64 virtualNodes calls).ring = (ringAfter hash64 virtualNodes calls').ring ∧
      (∀ shard, (ringAfter hash64 virtualNodes calls).primaryFor shard =
        (ringAfter hash64 virtualNodes calls').primaryFor shard) ∧
      ∀ shard count, (ringAfter hash64 virtualNodes calls).replicaNodes shard count =
        (ringAfter hash64 virtualNodes calls').replicaNodes shard count := by
  have hmem : ∀ c ∈ calls ++ calls', c.nodeId ∈ (calls ++ calls').map Call.nodeId := fun c hc =>
    List.mem_map_of_mem hc
  obtain ⟨hp, hvn⟩ := placed_ringAfter hash64 virtualNodes calls _ h
    (fun c hc => hmem c (List.mem_append_left calls' hc))
  obtain ⟨hp', hvn'⟩ := placed_ringAfter hash64 virtualNodes calls' _ h
    (fun c hc => hmem c (List.mem_append_right calls hc))
  have hring : (ringAfter hash64 virtualNodes calls).ring =
      (ringAfter hash64 virtualNodes calls').ring := by
    refine BTreeMap.eq_of_mem _ _ ?_
    rintro ⟨pos, node⟩
    rw [hp pos node, hp' pos node, hlive, hvn, hvn']
  refine ⟨label_inj, hring, ?_, ?_⟩
  · intro shard
    rw [ConsistentHashRing.primaryFor, ConsistentHashRing.primaryFor, hring]
  · intro shard count
    rw [ConsistentHashRing.replicaNodes, ConsistentHashRing.replicaNodes,
      ConsistentHashRing.clockwise, ConsistentHashRing.clockwise, hring]

end Agreement

/-- The bytes as digits: no two short labels collide. -/
def bytesHash (bs : List UInt8) : UInt64 := bs.foldl (fun h b => 256 * h + b.toUInt64) 0

/-- A node that left and came back has the place of one that never left. -/
theorem ring_agreement_rejoined :
    (ringAfter bytesHash 2 [.addNode "a", .addNode "b#1", .removeNode "a", .addNode "a"]).ring =
      (ringAfter bytesHash 2 [.addNode "b#1", .addNode "a"]).ring :=
  (ring_agreement bytesHash 2 _ _ (by decide +kernel) (by decide +kernel)).2.1

end InfraLens.Cluster
