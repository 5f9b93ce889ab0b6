import InfraLens.LibRun
import InfraLens.Ring
import Mathlib.Data.Set.Insert
import Mathlib.Data.String.Basic

/-! Cluster membership (membership.rs): a node registers with etcd, loads the registered nodes,
and then follows a watch, while other nodes come and go. etcd is a key space with a history of
changes; a watch without a start revision delivers those made after its creation. -/
namespace InfraLens.Cluster
open LibMap LibRun

def nodesPrefix : String := "/infralens/nodes/"

def nodeKey (nodeId : String) : String := nodesPrefix ++ nodeId

structure NodeMeta where
  nodeId : String
  internalGrpcAddr : String
  version : String
  startedAtNs : UInt64

structure ClusterView where
  nodes : List NodeMeta
  ring : ConsistentHashRing

/-! ### etcd -/

/-- A change to a key. Values are read back as they were written. -/
inductive Event where
  | put (key : String) (value : NodeMeta)
  | delete (key : String)

/-- The keys and values, and the change that made each revision. -/
structure Etcd where
  kvs : BTreeMap String NodeMeta
  history : List Event

def Etcd.empty : Etcd := ⟨.empty, []⟩

def Etcd.keys (etcd : Etcd) : List String := etcd.kvs.entries.map Prod.fst

def Etcd.put (etcd : Etcd) (key : String) (value : NodeMeta) : Etcd :=
  ⟨etcd.kvs.insert key value, etcd.history ++ [.put key value]⟩

/-- Deleting a key that is not there makes no revision. -/
def Etcd.delete (etcd : Etcd) (key : String) : Etcd :=
  if key ∈ etcd.keys then ⟨etcd.kvs.remove key, etcd.history ++ [.delete key]⟩ else etcd

/-! ### The view of a node -/

/-- `trim_start_matches` of a pattern that is not empty: it is cut off as often as it stands at
the start. The length of the text bounds how often that is. -/
def trimStartMatches (pattern : List Char) : Nat → List Char → List Char
  | 0, text => text
  | n + 1, text =>
    if pattern <+: text then trimStartMatches pattern n (text.drop pattern.length) else text

/-- The node a deleted key is taken to name. -/
def deletedNode (key : String) : String :=
  String.ofList (trimStartMatches nodesPrefix.toList key.toList.length key.toList)

section View
variable (hash64 : List UInt8 → UInt64)

def loadView (etcd : Etcd) (virtualNodes : UInt32) : ClusterView :=
  let metas := (etcd.kvs.entries.filter fun kv => nodesPrefix.toList <+: kv.1.toList).map Prod.snd
  ⟨metas, metas.foldl (fun ring m => ring.addNode hash64 m.nodeId) (.new virtualNodes)⟩

/-- The body of the loop of `watch_membership`. -/
def watchEvent (view : ClusterView) : Event → ClusterView
  | .put _ value =>
    ⟨view.nodes.filter (fun n => n.nodeId ≠ value.nodeId) ++ [value],
      view.ring.addNode hash64 value.nodeId⟩
  | .delete key =>
    ⟨view.nodes.filter fun n => n.nodeId ≠ deletedNode key,
      view.ring.removeNode hash64 (deletedNode key)⟩

end View

/-! ### Joining -/

/-- Where `join` is. A loaded view is that of a revision, which `join` does not keep; a watch has
a number of changes behind it, delivered or made before it. -/
inductive Pc where
  | start
  | registered
  | loaded (revision : Nat)
  | watching (behind : Nat)
  deriving DecidableEq

structure System where
  etcd : Etcd
  pc : Pc
  view : ClusterView

inductive Action where
  | register (node : NodeMeta)
  | remove (nodeId : String)
  | put
  | loadView
  | createWatch
  | process

/-- What `join` is called with. -/
structure JoinConfig where
  node : NodeMeta
  virtualNodes : UInt32
  hash64 : List UInt8 → UInt64

def System.new (cfg : JoinConfig) : System := ⟨.empty, .start, ⟨[], .new cfg.virtualNodes⟩⟩

/-- The registrations and removals are those of any node, the other actions those of `join`. -/
def System.step (cfg : JoinConfig) (s : System) : Action → Option System
  | .register node => some { s with etcd := s.etcd.put (nodeKey node.nodeId) node }
  | .remove nodeId => some { s with etcd := s.etcd.delete (nodeKey nodeId) }
  | .put =>
    if s.pc = .start then
      some { s with etcd := s.etcd.put (nodeKey cfg.node.nodeId) cfg.node, pc := .registered }
    else none
  | .loadView =>
    if s.pc = .registered then
      some { s with
        view := loadView cfg.hash64 s.etcd cfg.virtualNodes
        pc := .loaded s.etcd.history.length }
    else none
  | .createWatch =>
    match s.pc with
    | .loaded _ => some { s with pc := .watching s.etcd.history.length }
    | _ => none
  | .process =>
    match s.pc with
    | .watching behind =>
      match s.etcd.history[behind]? with
      | some e =>
        some { s with view := watchEvent cfg.hash64 s.view e, pc := .watching (behind + 1) }
      | none => none
    | _ => none

/-- What each step needs and does. -/
inductive JoinStepped (cfg : JoinConfig) (s : System) : Action → System → Prop where
  | register (node : NodeMeta) : JoinStepped cfg s (.register node)
      { s with etcd := s.etcd.put (nodeKey node.nodeId) node }
  | remove (nodeId : String) : JoinStepped cfg s (.remove nodeId)
      { s with etcd := s.etcd.delete (nodeKey nodeId) }
  | put (hpc : s.pc = .start) : JoinStepped cfg s .put
      { s with etcd := s.etcd.put (nodeKey cfg.node.nodeId) cfg.node, pc := .registered }
  | loadView (hpc : s.pc = .registered) : JoinStepped cfg s .loadView { s with
      view := loadView cfg.hash64 s.etcd cfg.virtualNodes
      pc := .loaded s.etcd.history.length }
  | createWatch (revision : Nat) (hpc : s.pc = .loaded revision) : JoinStepped cfg s .createWatch
      { s with pc := .watching s.etcd.history.length }
  | process (behind : Nat) (hlt : behind < s.etcd.history.length) (hpc : s.pc = .watching behind) :
      JoinStepped cfg s .process { s with
        view := watchEvent cfg.hash64 s.view s.etcd.history[behind]
        pc := .watching (behind + 1) }

theorem joinStepped_of_step (cfg : JoinConfig) (s t : System) (a : Action)
    (h : s.step cfg a = some t) : JoinStepped cfg s a t := by
  cases a with
  | register node =>
    cases h
    exact .register node
  | remove nodeId =>
    cases h
    exact .remove nodeId
  | put =>
    rw [System.step] at h
    split at h
    · cases h
      exact .put (by assumption)
    · cases h
  | loadView =>
    rw [System.step] at h
    split at h
    · cases h
      exact .loadView (by assumption)
    · cases h
  | createWatch =>
    rw [System.step] at h
    split at h
    next revision hpc =>
      cases h
      exact .createWatch revision hpc
    · cases h
  | process =>
    rw [System.step] at h
    split at h
    next behind hpc =>
      split at h
      next e he =>
        cases h
        obtain ⟨hlt, rfl⟩ := List.getElem?_eq_some_iff.mp he
        exact .process behind hlt hpc
      · cases h
    · cases h

/-! ### Node ids -/

def ClusterView.ids (view : ClusterView) : Set String := {id | ∃ m ∈ view.nodes, m.nodeId = id}

def Etcd.ids (etcd : Etcd) : Set String := {id | nodeKey id ∈ etcd.keys}

def Event.keys (keys : Set String) : Event → Set String
  | .put key _ => insert key keys
  | .delete key => keys \ {key}

def idsAfter (history : List Event) : Set String :=
  {id | nodeKey id ∈ history.foldl Event.keys ∅}

/-- Every key is that of the node it holds, and the keys are what the changes made them. -/
structure Etcd.Coherent (etcd : Etcd) : Prop where
  keyed : ∀ e ∈ etcd.kvs.entries, e.1 = nodeKey e.2.nodeId
  replayed : ∀ key, key ∈ etcd.keys ↔ key ∈ etcd.history.foldl Event.keys ∅

def Event.ids (ids : Set String) : Event → Set String
  | .put _ value => insert value.nodeId ids
  | .delete key => ids \ {deletedNode key}

theorem ids_watchEvent (hash64 : List UInt8 → UInt64) (view : ClusterView) (e : Event) :
    (watchEvent hash64 view e).ids = e.ids view.ids := by
  ext id
  cases e with
  | put key value =>
    simp only [ClusterView.ids, watchEvent, Event.ids, List.mem_append, List.mem_filter,
      List.mem_singleton, Set.mem_ofPred_eq, Set.mem_insert_iff, decide_eq_true_eq]
    constructor
    · rintro ⟨m, hm | rfl, rfl⟩
      · exact Or.inr ⟨m, hm.1, rfl⟩
      · exact Or.inl rfl
    · rintro (rfl | ⟨m, hm, rfl⟩)
      · exact ⟨value, Or.inr rfl, rfl⟩
      · by_cases heq : m.nodeId = value.nodeId
        · exact ⟨value, Or.inr rfl, heq.symm⟩
        · exact ⟨m, Or.inl ⟨hm, heq⟩, rfl⟩
  | delete key =>
    simp only [ClusterView.ids, watchEvent, Event.ids, List.mem_filter, Set.mem_ofPred_eq,
      Set.mem_sdiff, Set.mem_singleton_iff, decide_eq_true_eq]
    constructor
    · rintro ⟨m, ⟨hm, hne⟩, rfl⟩
      exact ⟨⟨m, hm, rfl⟩, hne⟩
    · rintro ⟨⟨m, hm, rfl⟩, hne⟩
      exact ⟨m, ⟨hm, hne⟩, rfl⟩

theorem nodeKey_inj (a b : String) : nodeKey a = nodeKey b ↔ a = b := by
  constructor
  · intro h
    have hlist := congrArg String.toList h
    rw [nodeKey, nodeKey, String.toList_append, String.toList_append] at hlist
    exact String.toList_inj.mp (List.append_cancel_left hlist)
  · intro h
    rw [h]

theorem mem_keys (etcd : Etcd) (key : String) :
    key ∈ etcd.keys ↔ ∃ m, (key, m) ∈ etcd.kvs.entries := by
  simp [Etcd.keys]

theorem mem_keys_put (etcd : Etcd) (key : String) (value : NodeMeta) (k : String) :
    k ∈ (etcd.put key value).keys ↔ k = key ∨ k ∈ etcd.keys := by
  simp only [mem_keys, Etcd.put, BTreeMap.mem_insert, Prod.mk.injEq]
  constructor
  · rintro ⟨m, ⟨rfl, _⟩ | ⟨hm, _⟩⟩
    · exact Or.inl rfl
    · exact Or.inr ⟨m, hm⟩
  · intro hk
    by_cases heq : k = key
    · exact ⟨value, Or.inl ⟨heq, rfl⟩⟩
    · obtain ⟨m, hm⟩ := hk.resolve_left heq
      exact ⟨m, Or.inr ⟨hm, heq⟩⟩

theorem mem_keys_remove (etcd : Etcd) (key k : String) :
    k ∈ Etcd.keys ⟨etcd.kvs.remove key, etcd.history ++ [.delete key]⟩ ↔
      k ∈ etcd.keys ∧ k ≠ key := by
  simp only [mem_keys, BTreeMap.mem_remove]
  constructor
  · rintro ⟨m, hm, hne⟩
    exact ⟨⟨m, hm⟩, hne⟩
  · rintro ⟨⟨m, hm⟩, hne⟩
    exact ⟨m, hm, hne⟩

theorem ids_put (etcd : Etcd) (node : NodeMeta) :
    (etcd.put (nodeKey node.nodeId) node).ids = insert node.nodeId etcd.ids := by
  ext id
  simp only [Etcd.ids, Set.mem_ofPred_eq, mem_keys_put, nodeKey_inj, Set.mem_insert_iff]

theorem ids_delete (etcd : Etcd) (nodeId : String) :
    (etcd.delete (nodeKey nodeId)).ids = etcd.ids \ {nodeId} := by
  ext id
  unfold Etcd.delete
  split
  next hkey =>
    simp only [Etcd.ids, Set.mem_ofPred_eq, mem_keys_remove, ne_eq, nodeKey_inj, Set.mem_sdiff,
      Set.mem_singleton_iff]
  next hkey =>
    simp only [Etcd.ids, Set.mem_ofPred_eq, Set.mem_sdiff, Set.mem_singleton_iff]
    refine ⟨fun hid => ⟨hid, ?_⟩, And.left⟩
    rintro rfl
    exact hkey hid

/-- The id of a deleted key is read back, unless the id itself starts like a key. -/
theorem deletedNode_nodeKey (nodeId : String) (h : ¬ nodesPrefix.toList <+: nodeId.toList) :
    deletedNode (nodeKey nodeId) = nodeId := by
  have hone : ∀ n, trimStartMatches nodesPrefix.toList (n + 1)
      (nodesPrefix.toList ++ nodeId.toList) = nodeId.toList := by
    intro n
    rw [trimStartMatches, if_pos (List.prefix_append _ _), List.drop_left]
    cases n with
    | zero => rfl
    | succ n => rw [trimStartMatches, if_neg h]
  rw [deletedNode, nodeKey, String.toList_append, List.length_append]
  have hlen : nodesPrefix.toList.length + nodeId.toList.length =
      16 + nodeId.toList.length + 1 := by
    have : nodesPrefix.toList.length = 17 := by decide
    omega
  rw [hlen, hone, String.ofList_toList]

/-! ### Keys and changes -/

section Coherent
variable {etcd : Etcd} (hc : etcd.Coherent)

include hc

theorem Etcd.Coherent.ids_eq : etcd.ids = idsAfter etcd.history := by
  ext id
  exact hc.replayed (nodeKey id)

theorem Etcd.Coherent.put (node : NodeMeta) : (etcd.put (nodeKey node.nodeId) node).Coherent := by
  refine ⟨?_, ?_⟩
  · intro e he
    obtain rfl | ⟨hm, _⟩ := (BTreeMap.mem_insert ..).mp he
    · rfl
    · exact hc.keyed e hm
  · intro key
    rw [mem_keys_put, hc.replayed, Etcd.put, List.foldl_append]
    exact Set.mem_insert_iff.symm

theorem Etcd.Coherent.delete (nodeId : String) : (etcd.delete (nodeKey nodeId)).Coherent := by
  unfold Etcd.delete
  split
  next =>
    refine ⟨fun e he => hc.keyed e ((BTreeMap.mem_remove ..).mp he).1, ?_⟩
    intro key
    rw [mem_keys_remove, hc.replayed, List.foldl_append]
    exact Iff.rfl
  next => exact hc

theorem ids_loadView (hash64 : List UInt8 → UInt64) (virtualNodes : UInt32) :
    (loadView hash64 etcd virtualNodes).ids = etcd.ids := by
  ext id
  simp only [ClusterView.ids, loadView, Etcd.ids, Set.mem_ofPred_eq, List.mem_map,
    List.mem_filter, decide_eq_true_eq, mem_keys]
  constructor
  · rintro ⟨m, ⟨e, ⟨he, _⟩, rfl⟩, rfl⟩
    exact ⟨e.2, hc.keyed e he ▸ he⟩
  · rintro ⟨m, hm⟩
    have hkey := hc.keyed _ hm
    refine ⟨m, ⟨_, ⟨hm, ?_⟩, rfl⟩, ((nodeKey_inj _ _).mp hkey).symm⟩
    rw [nodeKey, String.toList_append]
    exact List.prefix_append _ _

end Coherent

theorem history_delete (etcd : Etcd) (key : String) :
    etcd.history <+: (etcd.delete key).history := by
  unfold Etcd.delete
  split
  · exact List.prefix_append _ _
  · exact List.prefix_refl _

theorem Etcd.coherent_empty : Etcd.empty.Coherent := by
  refine ⟨fun e he => absurd he List.not_mem_nil, fun key => ?_⟩
  simp [Etcd.keys, Etcd.empty, BTreeMap.empty]

/-! ### Following the watch -/

def System.pending (s : System) : List Event :=
  match s.pc with
  | .watching behind => s.etcd.history.drop behind
  | _ => []

/-- Once every event the watch delivers has been processed, the view has the nodes that have a
key in etcd. -/
def Settles (cfg : JoinConfig) (s : System) : Prop :=
  (∃ behind, s.pc = .watching behind) →
    (s.pending.foldl (watchEvent cfg.hash64) s.view).ids = s.etcd.ids

/-- The changes made after the revision that was loaded leave the key space, as the watch is
created, with the same nodes, and no node whose id starts with the prefix of the keys is removed
under the watch. -/
def Unmissed (s : System) : Action → Prop
  | .createWatch => ∀ revision, s.pc = .loaded revision →
      idsAfter (s.etcd.history.take revision) = idsAfter s.etcd.history
  | .remove nodeId => (∃ behind, s.pc = .watching behind) → nodeKey nodeId ∈ s.etcd.keys →
      ¬ nodesPrefix.toList <+: nodeId.toList
  | _ => True

theorem trimStartMatches_length_le (pattern : List Char) (n : Nat) (text : List Char) :
    (trimStartMatches pattern n text).length ≤ text.length := by
  induction n generalizing text with
  | zero => exact Nat.le_refl _
  | succ n ih =>
    rw [trimStartMatches]
    split
    · have hle := ih (text.drop pattern.length)
      rw [List.length_drop] at hle
      omega
    · exact Nat.le_refl _

theorem deletedNode_ne (nodeId : String) (h : nodesPrefix.toList <+: nodeId.toList) :
    deletedNode (nodeKey nodeId) ≠ nodeId := by
  intro heq
  have hlist := congrArg String.toList heq
  obtain ⟨rest, hrest⟩ := h
  have hkey : (nodeKey nodeId).toList = nodesPrefix.toList ++ (nodesPrefix.toList ++ rest) := by
    rw [nodeKey, String.toList_append, hrest]
  have hfuel : ∃ n, (nodeKey nodeId).toList.length = n + 2 := by
    have hlen : nodesPrefix.toList.length = 17 := by decide
    refine ⟨32 + rest.length, ?_⟩
    rw [hkey, List.length_append, List.length_append]
    omega
  obtain ⟨n, hn⟩ := hfuel
  rw [deletedNode, hn, hkey, String.toList_ofList, trimStartMatches,
    if_pos (List.prefix_append _ _), List.drop_left, trimStartMatches,
    if_pos (List.prefix_append _ _), List.drop_left, ← hrest] at hlist
  have hle := trimStartMatches_length_le nodesPrefix.toList n rest
  rw [hlist, List.length_append] at hle
  have hpos : 0 < nodesPrefix.toList.length := by decide
  omega

theorem ids_foldl (hash64 : List UInt8 → UInt64) (es : List Event) (view : ClusterView) :
    (es.foldl (watchEvent hash64) view).ids = es.foldl Event.ids view.ids := by
  induction es generalizing view with
  | nil => rfl
  | cons e es ih => rw [List.foldl_cons, List.foldl_cons, ih, ids_watchEvent]

section Following
variable (cfg : JoinConfig) (s t : System)

/-- What is pending is processed by as many steps as there are events. -/
theorem run_process (behind : Nat) (hpc : s.pc = .watching behind)
    (hle : behind ≤ s.etcd.history.length) :
    run (System.step cfg) s (List.replicate s.pending.length .process) =
      some { s with
        view := s.pending.foldl (watchEvent cfg.hash64) s.view
        pc := .watching s.etcd.history.length } := by
  have hpending : s.pending = s.etcd.history.drop behind := by rw [System.pending, hpc]
  rw [hpending, List.length_drop]
  -- one event less is pending after each step
  obtain ⟨n, hn⟩ : ∃ n, n = s.etcd.history.length - behind := ⟨_, rfl⟩
  rw [← hn]
  clear hpending
  induction n generalizing s behind with
  | zero =>
    have hend : behind = s.etcd.history.length := by omega
    have hnil : s.etcd.history.drop behind = [] := List.drop_eq_nil_of_le (by omega)
    rw [hnil, ← hend, ← hpc]
    rfl
  | succ n ih =>
    have hlt : behind < s.etcd.history.length := by omega
    have hstep : s.step cfg .process = some { s with
        view := watchEvent cfg.hash64 s.view s.etcd.history[behind]
        pc := .watching (behind + 1) } := by
      simp [System.step, hpc, List.getElem?_eq_getElem hlt]
    rw [List.replicate_succ, run, hstep, List.drop_eq_getElem_cons hlt, List.foldl_cons]
    exact ih _ (behind + 1) rfl hlt (by simp only; omega)

/-- The watch is not ahead of etcd, and a view that was loaded is that of its revision. -/
structure Coherent : Prop where
  etcd : s.etcd.Coherent
  behind : ∀ behind, s.pc = .watching behind → behind ≤ s.etcd.history.length
  loaded : ∀ revision, s.pc = .loaded revision → revision ≤ s.etcd.history.length ∧
    s.view.ids = idsAfter (s.etcd.history.take revision)

theorem settles_append (e : Event) (etcd : Etcd) (hs : Settles cfg s)
    (hb : ∀ behind, s.pc = .watching behind → behind ≤ s.etcd.history.length)
    (hhistory : etcd.history = s.etcd.history ++ [e]) :
    Settles cfg { s with etcd := etcd } ↔
      ((∃ behind, s.pc = .watching behind) → e.ids s.etcd.ids = etcd.ids) := by
  refine forall_congr' ?_
  rintro ⟨behind, hpc⟩
  have hpc : s.pc = .watching behind := hpc
  have hold : s.pending = s.etcd.history.drop behind := by rw [System.pending, hpc]
  have hnew : System.pending { s with etcd := etcd } = s.pending ++ [e] := by
    rw [hold, System.pending, hpc]
    simp only [hhistory]
    exact List.drop_append_of_le_length (hb behind hpc)
  rw [hnew, ids_foldl, List.foldl_append, ← ids_foldl cfg.hash64, hs ⟨behind, hpc⟩]
  rfl

theorem settles_step_iff (hc : Coherent s) (hs : Settles cfg s) (a : Action)
    (h : s.step cfg a = some t) : Settles cfg t ↔ Unmissed s a := by
  cases joinStepped_of_step cfg s t a h with
  | register node =>
    rw [settles_append cfg s (.put (nodeKey node.nodeId) node) _ hs hc.behind rfl, ids_put]
    exact ⟨fun _ => trivial, fun _ _ => rfl⟩
  | remove nodeId =>
    by_cases hkey : nodeKey nodeId ∈ s.etcd.keys
    · have hdelete : s.etcd.delete (nodeKey nodeId) = ⟨s.etcd.kvs.remove (nodeKey nodeId),
          s.etcd.history ++ [.delete (nodeKey nodeId)]⟩ := if_pos hkey
      rw [settles_append cfg s (.delete (nodeKey nodeId)) _ hs hc.behind (by rw [hdelete]),
        ids_delete]
      refine forall_congr' fun hwatch => ?_
      constructor
      · intro heq _ hpre
        have hmem : nodeId ∈ s.etcd.ids \ {deletedNode (nodeKey nodeId)} :=
          ⟨hkey, fun h => deletedNode_ne nodeId hpre h.symm⟩
        rw [Event.ids] at heq
        rw [heq] at hmem
        exact hmem.2 rfl
      · intro hpre
        rw [Event.ids, deletedNode_nodeKey nodeId (hpre hkey)]
    · have hdelete : s.etcd.delete (nodeKey nodeId) = s.etcd := if_neg hkey
      rw [hdelete]
      exact ⟨fun _ _ hin => absurd hin hkey, fun _ => hs⟩
  | put => exact ⟨fun _ => trivial, fun _ hw => by simp at hw⟩
  | loadView => exact ⟨fun _ => trivial, fun _ hw => by simp at hw⟩
  | createWatch revision hpc =>
    -- nothing is pending, so the view that was loaded has to be right
    rw [Unmissed, hpc]
    simp [Settles, System.pending, (hc.loaded revision hpc).2, hc.etcd.ids_eq]
  | process behind hlt hpc =>
    have hbefore := hs ⟨behind, hpc⟩
    rw [System.pending, hpc] at hbefore
    simp only [List.drop_eq_getElem_cons hlt, List.foldl_cons] at hbefore
    exact ⟨fun _ => trivial, fun _ _ => hbefore⟩

theorem Coherent.change (hc : Coherent s) (etcd : Etcd) (hetcd : etcd.Coherent)
    (hfront : s.etcd.history <+: etcd.history) : Coherent { s with etcd := etcd } := by
  refine ⟨hetcd, ?_, ?_⟩
  · intro behind hpc
    exact (hc.behind behind hpc).trans hfront.length_le
  · intro revision hpc
    obtain ⟨hle, hids⟩ := hc.loaded revision hpc
    obtain ⟨rest, hrest⟩ := hfront
    refine ⟨?_, ?_⟩
    · rw [← hrest, List.length_append]
      omega
    · rw [← hrest, List.take_append_of_le_length hle]
      exact hids

theorem coherent_step (hc : Coherent s) (a : Action) (h : s.step cfg a = some t) : Coherent t := by
  cases joinStepped_of_step cfg s t a h with
  | register node => exact hc.change s _ (hc.etcd.put node) (List.prefix_append _ _)
  | remove nodeId => exact hc.change s _ (hc.etcd.delete nodeId) (history_delete _ _)
  | put => exact ⟨hc.etcd.put cfg.node, fun _ hpc => (by cases hpc), fun _ hpc => (by cases hpc)⟩
  | loadView =>
    refine ⟨hc.etcd, fun _ hpc => (by cases hpc), ?_⟩
    intro revision hpc
    cases hpc
    refine ⟨Nat.le_refl _, ?_⟩
    rw [List.take_length, ← hc.etcd.ids_eq]
    exact ids_loadView hc.etcd cfg.hash64 cfg.virtualNodes
  | createWatch revision =>
    refine ⟨hc.etcd, ?_, fun _ hpc => by cases hpc⟩
    intro behind hpc
    cases hpc
    exact Nat.le_refl _
  | process behind hlt =>
    refine ⟨hc.etcd, ?_, fun _ hpc => by cases hpc⟩
    intro behind' hpc
    cases hpc
    exact hlt

end Following

theorem settles_run_iff (cfg : JoinConfig) (acts : List Action) (s t : System) (hc : Coherent s)
    (hs : Settles cfg s) (h : run (System.step cfg) s acts = some t) :
    (∀ k u, run (System.step cfg) s (acts.take k) = some u → Settles cfg u) ↔
      Along (System.step cfg) Unmissed s acts :=
  run_along_iff (System.step cfg) Unmissed Coherent (Settles cfg)
    (fun s a t hc hstep => coherent_step cfg s t hc a hstep)
    (fun s a t hc hs hstep => settles_step_iff cfg s t hc hs a hstep) acts s t hc hs h

/-- The membership view follows etcd in every state of a run when, and only when, the changes made
between `load_view` and the watch leave etcd with the same nodes, and no node whose id starts with
the prefix of the keys is removed under the watch. -/
theorem membership_follows_etcd (cfg : JoinConfig) (acts : List Action) (t : System)
    (h : run (System.step cfg) (System.new cfg) acts = some t) :
    (∀ k u, run (System.step cfg) (System.new cfg) (acts.take k) = some u → Settles cfg u) ↔
      Along (System.step cfg) Unmissed (System.new cfg) acts := by
  refine settles_run_iff cfg acts _ t ⟨Etcd.coherent_empty, ?_, ?_⟩ ?_ h
  · intro behind hpc
    cases hpc
  · intro revision hpc
    cases hpc
  · rintro ⟨behind, hpc⟩
    cases hpc

def bareNode (nodeId : String) : NodeMeta := ⟨nodeId, "", "", 0⟩

def joinConfig : JoinConfig := ⟨bareNode "a", 1, bytesHash⟩

/-- A node comes and goes before the watch is there; under the watch one comes and another goes. -/
def comingAndGoing : List Action :=
  [.register (bareNode "b"), .put, .loadView, .register (bareNode "c"), .remove "c", .createWatch,
    .register (bareNode "d"), .process, .remove "b", .process]

def followed : System :=
  (run (System.step joinConfig) (System.new joinConfig) comingAndGoing).getD (System.new joinConfig)

theorem idsAfter_undone (history : List Event) (value : NodeMeta) (key : String)
    (hnew : key ∉ history.foldl Event.keys ∅) :
    idsAfter (history ++ [.put key value, .delete key]) = idsAfter history := by
  ext id
  simp only [idsAfter, List.foldl_append, List.foldl_cons, List.foldl_nil, Event.keys,
    Set.mem_ofPred_eq, Set.mem_sdiff, Set.mem_insert_iff, Set.mem_singleton_iff]
  constructor
  · rintro ⟨hkey | hkey, hne⟩
    · exact absurd hkey hne
    · exact hkey
  · intro hkey
    exact ⟨Or.inr hkey, fun he => hnew (he ▸ hkey)⟩

theorem comingAndGoing_unmissed :
    Along (System.step joinConfig) Unmissed (System.new joinConfig) comingAndGoing := by
  refine ⟨trivial, ?_⟩
  rintro s₁ ⟨⟩
  refine ⟨trivial, ?_⟩
  rintro s₂ ⟨⟩
  refine ⟨trivial, ?_⟩
  rintro s₃ ⟨⟩
  refine ⟨trivial, ?_⟩
  rintro s₄ ⟨⟩
  refine ⟨fun hwatch => ?_, ?_⟩
  · obtain ⟨behind, hpc⟩ := hwatch
    cases hpc
  rintro s₅ ⟨⟩
  refine ⟨?_, ?_⟩
  · intro revision hpc
    cases hpc
    refine (idsAfter_undone [.put (nodeKey "b") (bareNode "b"), .put (nodeKey "a") (bareNode "a")]
      (bareNode "c") (nodeKey "c") ?_).symm
    simp [Event.keys, nodeKey_inj]
  rintro s₆ ⟨⟩
  refine ⟨trivial, ?_⟩
  rintro s₇ ⟨⟩
  refine ⟨trivial, ?_⟩
  rintro s₈ ⟨⟩
  refine ⟨fun _ _ => by decide, ?_⟩
  rintro s₉ ⟨⟩
  exact ⟨trivial, fun _ _ => trivial⟩

theorem membership_follows_changes : Settles joinConfig followed :=
  (membership_follows_etcd joinConfig comingAndGoing followed rfl).mpr comingAndGoing_unmissed 10
    followed rfl

theorem not_settles (cfg : JoinConfig) (s : System) (nodeId : String) (behind : Nat)
    (hpc : s.pc = .watching behind)
    (h : ¬ (nodeId ∈ (s.pending.foldl (watchEvent cfg.hash64) s.view).nodes.map NodeMeta.nodeId ↔
      nodeKey nodeId ∈ s.etcd.keys)) : ¬ Settles cfg s := by
  intro hs
  apply h
  have hids := Set.ext_iff.mp (hs ⟨behind, hpc⟩) nodeId
  simpa [ClusterView.ids, Etcd.ids] using hids

/-- A node that registers or is removed between `load_view` and the watch is missed, and so is
the removal of a node whose id starts like a key. -/
theorem membership_misses_changes :
    (∃ u, run (System.step joinConfig) (System.new joinConfig)
      [.put, .loadView, .register (bareNode "b"), .createWatch] = some u ∧
        ¬ Settles joinConfig u) ∧
    (∃ u, run (System.step joinConfig) (System.new joinConfig)
      [.register (bareNode "b"), .put, .loadView, .remove "b", .createWatch] = some u ∧
        ¬ Settles joinConfig u) ∧
    ∃ u, run (System.step joinConfig) (System.new joinConfig)
      [.register (bareNode (nodeKey "b")), .put, .loadView, .createWatch, .remove (nodeKey "b"),
        .process] = some u ∧ ¬ Settles joinConfig u := by
  refine ⟨⟨_, rfl, ?_⟩, ⟨_, rfl, ?_⟩, ⟨_, rfl, ?_⟩⟩
  · exact not_settles _ _ "b" 2 rfl (by decide +kernel)
  · exact not_settles _ _ "b" 3 rfl (by decide +kernel)
  · exact not_settles _ _ (nodeKey "b") 3 rfl (by decide +kernel)

end InfraLens.Cluster
