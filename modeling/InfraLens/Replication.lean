import InfraLens.LibRun
import InfraLens.Replica

/-! The replication engine (replication.rs) as a state machine: any number of calls of `replicate`
take their steps in any order, while replicas drain or drop their queues. -/
namespace InfraLens.Replication
open LibRun Replica

def bufferPerReplica : Nat := 4096

/-- The channel to a replica's send loop: what the loop has taken from it, and its queue. -/
structure Channel where
  node : String
  taken : List ReplicationEntry
  queue : List ReplicationEntry
  isOpen : Bool

/-- Where a call is in its loop over the replicas: at the next one, with the sender of a replica,
or about to remove a sender that was found closed. -/
inductive Pc where
  | next
  | sending (node : String) (channel : Nat)
  | removing (node : String)

/-- A call of `replicate`. The nodes it has put its entry on a queue of are remembered; no step
reads them. -/
structure Call where
  entry : ReplicationEntry
  todo : List String
  pc : Pc
  sent : List String

/-- An entry that a replica's queue took. -/
structure Accepted where
  node : String
  channel : Nat
  entry : ReplicationEntry

/-- The engine. What the queues took is remembered in its order; no step reads it. -/
structure Engine where
  sequence : UInt64
  calls : List Call
  senders : String → Option Nat
  channels : List Channel
  accepted : List Accepted

def Engine.new : Engine := ⟨0, [], fun _ => none, [], []⟩

def Engine.setCall (s : Engine) (c : Nat) (call : Call) : Engine :=
  { s with calls := s.calls.set c call }

/-- Steps of calls, by number; a queue that is drained; a receiver that is dropped. Whether the
address of a replica is known is up to the view. -/
inductive Action where
  | start (nodes : List String) (partitionKey signal : String) (walBytes : List UInt8)
  | getSender (c : Nat) (known : Bool)
  | trySend (c : Nat)
  | remove (c : Nat)
  | recv (channel : Nat)
  | close (channel : Nat)

section Steps
variable (s : Engine)

/-- A call begins by drawing its number. -/
def Engine.start (nodes : List String) (partitionKey signal : String) (walBytes : List UInt8) :
    Engine :=
  { s with
    sequence := s.sequence + 1
    calls := s.calls ++ [⟨⟨s.sequence, partitionKey, signal, walBytes⟩, nodes, .next, []⟩] }

/-- `get_or_create_sender`, once the address is known. -/
def Engine.getOrCreateSender (node : String) : Nat × Engine :=
  match s.senders node with
  | some channel => (channel, s)
  | none => (s.channels.length,
      { s with
        channels := s.channels ++ [⟨node, [], [], true⟩]
        senders := Function.update s.senders node (some s.channels.length) })

def Engine.getSender (c : Nat) (known : Bool) : Option Engine :=
  match s.calls[c]? with
  | some ⟨entry, node :: todo, .next, sent⟩ =>
    if known then
      let (channel, s) := s.getOrCreateSender node
      some (s.setCall c ⟨entry, todo, .sending node channel, sent⟩)
    else some (s.setCall c ⟨entry, todo, .next, sent⟩)
  | _ => none

/-- `try_send`: an entry for a full queue is dropped. -/
def Engine.trySend (c : Nat) : Option Engine :=
  match s.calls[c]? with
  | some ⟨entry, todo, .sending node channel, sent⟩ =>
    match s.channels[channel]? with
    | some ch =>
      if !ch.isOpen then some (s.setCall c ⟨entry, todo, .removing node, sent⟩)
      else if ch.queue.length < bufferPerReplica then
        some { s.setCall c ⟨entry, todo, .next, sent ++ [node]⟩ with
          channels := s.channels.set channel { ch with queue := ch.queue ++ [entry] }
          accepted := s.accepted ++ [⟨node, channel, entry⟩] }
      else some (s.setCall c ⟨entry, todo, .next, sent⟩)
    | none => none
  | _ => none

/-- Whatever sender the map has by then is removed. -/
def Engine.remove (c : Nat) : Option Engine :=
  match s.calls[c]? with
  | some ⟨entry, todo, .removing node, sent⟩ =>
    some { s.setCall c ⟨entry, todo, .next, sent⟩ with
      senders := Function.update s.senders node none }
  | _ => none

/-- `replica_send_loop` takes the next entry. -/
def Engine.recv (channel : Nat) : Option Engine :=
  match s.channels[channel]? with
  | some ⟨node, taken, e :: queue, true⟩ =>
    some { s with channels := s.channels.set channel ⟨node, taken ++ [e], queue, true⟩ }
  | _ => none

def Engine.close (channel : Nat) : Option Engine :=
  match s.channels[channel]? with
  | some ch => some { s with channels := s.channels.set channel { ch with isOpen := false } }
  | none => none

end Steps

def step (s : Engine) : Action → Option Engine
  | .start nodes partitionKey signal walBytes =>
    some (s.start nodes partitionKey signal walBytes)
  | .getSender c known => s.getSender c known
  | .trySend c => s.trySend c
  | .remove c => s.remove c
  | .recv channel => s.recv channel
  | .close channel => s.close channel

/-- What each step needs and does. -/
inductive Stepped (s : Engine) : Action → Engine → Prop where
  | start (nodes : List String) (partitionKey signal : String) (walBytes : List UInt8) :
      Stepped s (.start nodes partitionKey signal walBytes)
        (s.start nodes partitionKey signal walBytes)
  | unknown (c : Nat) (entry : ReplicationEntry) (node : String) (todo sent : List String)
      (hcall : s.calls[c]? = some ⟨entry, node :: todo, .next, sent⟩) :
      Stepped s (.getSender c false) (s.setCall c ⟨entry, todo, .next, sent⟩)
  | found (c : Nat) (entry : ReplicationEntry) (node : String) (todo sent : List String)
      (channel : Nat) (hcall : s.calls[c]? = some ⟨entry, node :: todo, .next, sent⟩)
      (hsender : s.senders node = some channel) :
      Stepped s (.getSender c true) (s.setCall c ⟨entry, todo, .sending node channel, sent⟩)
  | created (c : Nat) (entry : ReplicationEntry) (node : String) (todo sent : List String)
      (hcall : s.calls[c]? = some ⟨entry, node :: todo, .next, sent⟩)
      (hsender : s.senders node = none) :
      Stepped s (.getSender c true)
        { s.setCall c ⟨entry, todo, .sending node s.channels.length, sent⟩ with
          channels := s.channels ++ [⟨node, [], [], true⟩]
          senders := Function.update s.senders node (some s.channels.length) }
  | closed (c : Nat) (entry : ReplicationEntry) (todo : List String) (node : String)
      (channel : Nat) (sent : List String)
      (hcall : s.calls[c]? = some ⟨entry, todo, .sending node channel, sent⟩) :
      Stepped s (.trySend c) (s.setCall c ⟨entry, todo, .removing node, sent⟩)
  | sent (c : Nat) (entry : ReplicationEntry) (todo : List String) (node : String)
      (channel : Nat) (sent : List String) (ch : Channel)
      (hcall : s.calls[c]? = some ⟨entry, todo, .sending node channel, sent⟩)
      (hch : s.channels[channel]? = some ch) (hopen : ch.isOpen = true)
      (hroom : ch.queue.length < bufferPerReplica) :
      Stepped s (.trySend c)
        { s.setCall c ⟨entry, todo, .next, sent ++ [node]⟩ with
          channels := s.channels.set channel { ch with queue := ch.queue ++ [entry] }
          accepted := s.accepted ++ [⟨node, channel, entry⟩] }
  | full (c : Nat) (entry : ReplicationEntry) (todo : List String) (node : String)
      (channel : Nat) (sent : List String)
      (hcall : s.calls[c]? = some ⟨entry, todo, .sending node channel, sent⟩) :
      Stepped s (.trySend c) (s.setCall c ⟨entry, todo, .next, sent⟩)
  | remove (c : Nat) (entry : ReplicationEntry) (todo : List String) (node : String)
      (sent : List String) (hcall : s.calls[c]? = some ⟨entry, todo, .removing node, sent⟩) :
      Stepped s (.remove c)
        { s.setCall c ⟨entry, todo, .next, sent⟩ with
          senders := Function.update s.senders node none }
  | recv (channel : Nat) (node : String) (taken : List ReplicationEntry) (e : ReplicationEntry)
      (queue : List ReplicationEntry)
      (hch : s.channels[channel]? = some ⟨node, taken, e :: queue, true⟩) :
      Stepped s (.recv channel)
        { s with channels := s.channels.set channel ⟨node, taken ++ [e], queue, true⟩ }
  | close (channel : Nat) (ch : Channel) (hch : s.channels[channel]? = some ch) :
      Stepped s (.close channel)
        { s with channels := s.channels.set channel { ch with isOpen := false } }

theorem stepped_getSender (s t : Engine) (c : Nat) (known : Bool)
    (h : s.getSender c known = some t) : Stepped s (.getSender c known) t := by
  unfold Engine.getSender at h
  split at h
  next entry node todo sent hcall =>
    split at h
    next hknown =>
      subst hknown
      simp only [Engine.getOrCreateSender] at h
      cases hsender : s.senders node with
      | none =>
        rw [hsender] at h
        cases h
        exact .created c entry node todo sent hcall hsender
      | some channel =>
        rw [hsender] at h
        cases h
        exact .found c entry node todo sent channel hcall hsender
    next hunknown =>
      rw [Bool.not_eq_true] at hunknown
      subst hunknown
      cases h
      exact .unknown c entry node todo sent hcall
  · cases h

theorem stepped_trySend (s t : Engine) (c : Nat) (h : s.trySend c = some t) :
    Stepped s (.trySend c) t := by
  unfold Engine.trySend at h
  split at h
  next entry todo node channel sent hcall =>
    split at h
    next ch hch =>
      split at h
      next =>
        cases h
        exact .closed c entry todo node channel sent hcall
      next hopen =>
        split at h
        next hroom =>
          cases h
          exact .sent c entry todo node channel sent ch hcall hch (by simpa using hopen) hroom
        next =>
          cases h
          exact .full c entry todo node channel sent hcall
    · cases h
  · cases h

theorem stepped (s t : Engine) (a : Action) (h : step s a = some t) : Stepped s a t := by
  cases a with
  | start nodes partitionKey signal walBytes =>
    cases h
    exact .start nodes partitionKey signal walBytes
  | getSender c known => exact stepped_getSender s t c known h
  | trySend c => exact stepped_trySend s t c h
  | remove c =>
    change s.remove c = some t at h
    unfold Engine.remove at h
    split at h
    next entry todo node sent hcall =>
      cases h
      exact .remove c entry todo node sent hcall
    · cases h
  | recv channel =>
    change s.recv channel = some t at h
    unfold Engine.recv at h
    split at h
    next node taken e queue hch =>
      cases h
      exact .recv channel node taken e queue hch
    · cases h
  | close channel =>
    change s.close channel = some t at h
    unfold Engine.close at h
    split at h
    next ch hch =>
      cases h
      exact .close channel ch hch
    · cases h

/-! ### Order -/

/-- The numbers of the entries that the queues of a replica took. -/
def Engine.numbers (s : Engine) (node : String) : List UInt64 :=
  (s.accepted.filter fun a => a.node = node).map fun a => a.entry.sequence

def Engine.through (s : Engine) (channel : Nat) : List ReplicationEntry :=
  (s.accepted.filter fun a => a.channel = channel).map Accepted.entry

def LeadsTo (channels : List Channel) (channel : Nat) (node : String) : Prop :=
  ∃ ch, channels[channel]? = some ch ∧ ch.node = node

/-- The entries each channel took are in its queue in that order, after those the send loop has
taken from it, and they are for its replica. -/
structure Linked (s : Engine) : Prop where
  queues : ∀ (channel : Nat) (ch : Channel), s.channels[channel]? = some ch →
    s.through channel = ch.taken ++ ch.queue
  replicas : ∀ a ∈ s.accepted, LeadsTo s.channels a.channel a.node
  senders : ∀ node channel, s.senders node = some channel → LeadsTo s.channels channel node
  calls : ∀ call ∈ s.calls, ∀ node channel, call.pc = .sending node channel →
    LeadsTo s.channels channel node

theorem leadsTo_set (channels : List Channel) (channel : Nat) (old new : Channel)
    (hold : channels[channel]? = some old) (hnode : new.node = old.node) (k : Nat) (node : String)
    (h : LeadsTo channels k node) : LeadsTo (channels.set channel new) k node := by
  obtain ⟨ch, hch, rfl⟩ := h
  by_cases he : channel = k
  · subst he
    rw [hold] at hch
    cases hch
    exact ⟨new, List.getElem?_set_self (List.getElem?_eq_some_iff.mp hold).1, hnode⟩
  · exact ⟨ch, (List.getElem?_set_ne he).trans hch, rfl⟩

theorem leadsTo_append (channels : List Channel) (new : Channel) (k : Nat) (node : String)
    (h : LeadsTo channels k node) : LeadsTo (channels ++ [new]) k node := by
  obtain ⟨ch, hch, hnode⟩ := h
  have hlt := (List.getElem?_eq_some_iff.mp hch).1
  exact ⟨ch, (List.getElem?_append_left hlt).trans hch, hnode⟩

theorem channel_set (channels : List Channel) (channel : Nat) (old new : Channel)
    (hold : channels[channel]? = some old) (k : Nat) (ch : Channel)
    (h : (channels.set channel new)[k]? = some ch) :
    k = channel ∧ ch = new ∨ k ≠ channel ∧ channels[k]? = some ch := by
  by_cases he : channel = k
  · subst he
    rw [List.getElem?_set_self (List.getElem?_eq_some_iff.mp hold).1] at h
    cases h
    exact Or.inl ⟨rfl, rfl⟩
  · exact Or.inr ⟨Ne.symm he, (List.getElem?_set_ne he).symm.trans h⟩

theorem through_append (accepted : List Accepted) (a : Accepted) (channel : Nat) :
    ((accepted ++ [a]).filter fun b => b.channel = channel).map Accepted.entry =
      (accepted.filter fun b => b.channel = channel).map Accepted.entry ++
        if a.channel = channel then [a.entry] else [] := by
  rw [List.filter_append, List.map_append]
  by_cases he : a.channel = channel <;> simp [he]

theorem Linked.through_new {s : Engine} (h : Linked s) : s.through s.channels.length = [] := by
  unfold Engine.through
  rw [List.map_eq_nil_iff, List.filter_eq_nil_iff]
  intro a ha he
  obtain ⟨ch, hch, _⟩ := h.replicas a ha
  rw [of_decide_eq_true he] at hch
  exact Nat.lt_irrefl _ (List.getElem?_eq_some_iff.mp hch).1

section Linking
variable {s : Engine} (h : Linked s)
include h

theorem Linked.setCall (c : Nat) (call : Call)
    (hcall : ∀ node channel, call.pc = .sending node channel → LeadsTo s.channels channel node) :
    Linked (s.setCall c call) where
  queues := h.queues
  replicas := h.replicas
  senders := h.senders
  calls := by
    intro call' hmem
    obtain hold | rfl := List.mem_or_eq_of_mem_set hmem
    · exact h.calls call' hold
    · exact hcall

theorem Linked.create (node : String) : Linked { s with
    channels := s.channels ++ [⟨node, [], [], true⟩]
    senders := Function.update s.senders node (some s.channels.length) } where
  queues := by
    intro channel ch hch
    rw [List.getElem?_append] at hch
    split at hch
    · exact h.queues channel ch hch
    next hge =>
      obtain ⟨hlt, hch⟩ := List.getElem?_eq_some_iff.mp hch
      have hnew : channel = s.channels.length := by
        simp only [List.length_singleton] at hlt
        omega
      subst hnew
      have hempty : ch = ⟨node, [], [], true⟩ := by simpa using hch.symm
      rw [hempty]
      exact h.through_new
  replicas a ha := leadsTo_append _ _ _ _ (h.replicas a ha)
  senders := by
    intro node' channel hsender
    by_cases he : node' = node
    · subst he
      have hnew : s.channels.length = channel := by simpa using hsender
      subst hnew
      exact ⟨_, List.getElem?_concat_length, rfl⟩
    · have hold : s.senders node' = some channel :=
        (Function.update_of_ne he _ _).symm.trans hsender
      exact leadsTo_append _ _ _ _ (h.senders node' channel hold)
  calls call hcall node' channel hpc :=
    leadsTo_append _ _ _ _ (h.calls call hcall node' channel hpc)

theorem Linked.remove (node : String) :
    Linked { s with senders := Function.update s.senders node none } where
  queues := h.queues
  replicas := h.replicas
  senders := by
    intro node' channel hsender
    by_cases he : node' = node
    · subst he
      simp at hsender
    · exact h.senders node' channel ((Function.update_of_ne he _ _).symm.trans hsender)
  calls := h.calls

theorem Linked.setChannel (channel : Nat) (old new : Channel)
    (hold : s.channels[channel]? = some old) (hnode : new.node = old.node)
    (hentries : new.taken ++ new.queue = old.taken ++ old.queue) :
    Linked { s with channels := s.channels.set channel new } where
  queues := by
    intro k ch hch
    obtain ⟨rfl, rfl⟩ | ⟨_, hsame⟩ := channel_set s.channels channel old new hold k ch hch
    · rw [hentries]
      exact h.queues k old hold
    · exact h.queues k ch hsame
  replicas a ha := leadsTo_set _ _ _ _ hold hnode _ _ (h.replicas a ha)
  senders node k hk := leadsTo_set _ _ _ _ hold hnode _ _ (h.senders node k hk)
  calls call hcall node k hk := leadsTo_set _ _ _ _ hold hnode _ _ (h.calls call hcall node k hk)

theorem Linked.enqueue (channel : Nat) (ch : Channel) (hch : s.channels[channel]? = some ch)
    (entry : ReplicationEntry) : Linked { s with
      channels := s.channels.set channel { ch with queue := ch.queue ++ [entry] }
      accepted := s.accepted ++ [⟨ch.node, channel, entry⟩] } where
  queues := by
    intro k ch' hch'
    have hthrough := through_append s.accepted ⟨ch.node, channel, entry⟩ k
    refine hthrough.trans ?_
    obtain ⟨rfl, rfl⟩ | ⟨hne, hsame⟩ := channel_set s.channels channel ch _ hch k ch' hch'
    · rw [if_pos rfl]
      exact (congrArg (· ++ [entry]) (h.queues k ch hch)).trans (List.append_assoc _ _ _)
    · rw [if_neg (Ne.symm hne), List.append_nil]
      exact h.queues k ch' hsame
  replicas := by
    intro a ha
    refine leadsTo_set _ _ _ _ hch (by rfl) _ _ ?_
    obtain hold | hnew := List.mem_append.mp ha
    · exact h.replicas a hold
    · rw [List.mem_singleton.mp hnew]
      exact ⟨ch, hch, rfl⟩
  senders node k hk := leadsTo_set _ _ _ _ hch (by rfl) _ _ (h.senders node k hk)
  calls call hcall node k hk := leadsTo_set _ _ _ _ hch (by rfl) _ _ (h.calls call hcall node k hk)

theorem Linked.start (nodes : List String) (partitionKey signal : String)
    (walBytes : List UInt8) : Linked (s.start nodes partitionKey signal walBytes) where
  queues := h.queues
  replicas := h.replicas
  senders := h.senders
  calls := by
    intro call hmem node channel hpc
    obtain hold | hnew := List.mem_append.mp hmem
    · exact h.calls call hold node channel hpc
    · rw [List.mem_singleton.mp hnew] at hpc
      cases hpc

end Linking

theorem linked_step (s : Engine) (a : Action) (t : Engine) (hl : Linked s)
    (h : step s a = some t) : Linked t := by
  cases stepped s t a h with
  | start nodes partitionKey signal walBytes => exact hl.start nodes partitionKey signal walBytes
  | unknown c entry node todo sent hcall =>
    exact hl.setCall c _ fun _ _ hpc => by cases hpc
  | found c entry node todo sent channel hcall hsender =>
    refine hl.setCall c _ ?_
    intro node' channel' hpc
    cases hpc
    exact hl.senders node channel hsender
  | created c entry node todo sent hcall hsender =>
    refine (hl.create node).setCall c ⟨entry, todo, .sending node s.channels.length, sent⟩ ?_
    intro node' channel' hpc
    cases hpc
    exact ⟨_, List.getElem?_concat_length, rfl⟩
  | closed c entry todo node channel sent hcall =>
    exact hl.setCall c _ fun _ _ hpc => by cases hpc
  | sent c entry todo node channel sent ch hcall hch hopen hroom =>
    obtain ⟨ch', hch', hnode⟩ := hl.calls _ (List.mem_of_getElem? hcall) node channel rfl
    rw [hch] at hch'
    cases hch'
    subst hnode
    exact (hl.enqueue channel ch hch entry).setCall c _ fun _ _ hpc => by cases hpc
  | full c entry todo node channel sent hcall =>
    exact hl.setCall c _ fun _ _ hpc => by cases hpc
  | remove c entry todo node sent hcall =>
    exact (hl.remove node).setCall c ⟨entry, todo, .next, sent⟩ fun _ _ hpc => by cases hpc
  | recv channel node taken e queue hch =>
    exact hl.setChannel channel _ _ hch rfl (by simp)
  | close channel ch hch => exact hl.setChannel channel _ _ hch rfl rfl

/-! ### Sending in turn -/

def Call.pending (call : Call) : List String :=
  match call.pc with
  | .sending node _ => node :: call.todo
  | _ => call.todo

def Call.target (call : Call) : Option String :=
  match call.pc with
  | .sending node _ => some node
  | _ => none

/-- A call names no replica twice and its number is not used up, and it sends to a replica only
when no call that drew its number before may still do so. -/
def InTurn (s : Engine) : Action → Prop
  | .start nodes _ _ _ => nodes.Nodup ∧ s.calls.length < 2 ^ 64
  | .trySend c => ∀ node ∈ s.calls[c]?.bind Call.target,
      ∀ earlier ∈ s.calls.take c, node ∉ earlier.pending
  | _ => True

instance decidableInTurn (s : Engine) : (a : Action) → Decidable (InTurn s a)
  | .start nodes _ _ _ => inferInstanceAs (Decidable (nodes.Nodup ∧ s.calls.length < 2 ^ 64))
  | .trySend c => inferInstanceAs (Decidable (∀ node ∈ s.calls[c]?.bind Call.target,
      ∀ earlier ∈ s.calls.take c, node ∉ earlier.pending))
  | .getSender _ _ => .isTrue trivial
  | .remove _ => .isTrue trivial
  | .recv _ => .isTrue trivial
  | .close _ => .isTrue trivial

theorem InTurn.earlier {s : Engine} {c : Nat} (h : InTurn s (.trySend c)) {call : Call}
    {node : String} {channel : Nat} (hcall : s.calls[c]? = some call)
    (hpc : call.pc = .sending node channel) (c' : Nat) (hlt : c' < c) (earlier : Call)
    (hearlier : s.calls[c']? = some earlier) : node ∉ earlier.pending := by
  refine h node ?_ earlier ?_
  · rw [hcall, Option.mem_def, Option.bind_some, Call.target, hpc]
  · exact List.mem_of_getElem? ((List.getElem?_take_of_lt hlt).trans hearlier)

/-- A call goes on: its entry stays, and each replica it is done with it has sent to or given
up. -/
structure Moves (s t : Engine) (c : Nat) (old new : Call) : Prop where
  was : s.calls[c]? = some old
  calls : t.calls = s.calls.set c new
  sequence : t.sequence = s.sequence
  entry : new.entry = old.entry
  rest : (new.sent ++ new.pending).Sublist (old.sent ++ old.pending)
  fewer : new.pending ⊆ old.pending

/-- A step starts a call, puts the entry of one on a queue, or lets at most one go on otherwise. -/
theorem step_cases (s t : Engine) (a : Action) (h : Stepped s a t) :
    (∃ nodes partitionKey signal walBytes, a = .start nodes partitionKey signal walBytes ∧
        t = s.start nodes partitionKey signal walBytes) ∨
      (∃ c old new node channel, a = .trySend c ∧ Moves s t c old new ∧
        old.pc = .sending node channel ∧ new.sent = old.sent ++ [node] ∧
        t.accepted = s.accepted ++ [⟨node, channel, old.entry⟩]) ∨
      t.accepted = s.accepted ∧
        ((∃ c old new, Moves s t c old new ∧ new.sent = old.sent) ∨
          t.calls = s.calls ∧ t.sequence = s.sequence) := by
  cases h with
  | start nodes partitionKey signal walBytes =>
    exact Or.inl ⟨nodes, partitionKey, signal, walBytes, rfl, rfl⟩
  | unknown c entry node todo sent hcall =>
    refine Or.inr (Or.inr ⟨rfl, Or.inl ⟨c, _, _, ⟨hcall, rfl, rfl, rfl, ?_, ?_⟩, rfl⟩⟩)
    · exact (List.sublist_cons_self node todo).append_left sent
    · exact List.subset_cons_self node todo
  | found c entry node todo sent channel hcall hsender =>
    exact Or.inr (Or.inr ⟨rfl, Or.inl ⟨c, _, _, ⟨hcall, rfl, rfl, rfl, List.Sublist.refl _,
      List.Subset.refl _⟩, rfl⟩⟩)
  | created c entry node todo sent hcall hsender =>
    exact Or.inr (Or.inr ⟨rfl, Or.inl ⟨c, _, _, ⟨hcall, rfl, rfl, rfl, List.Sublist.refl _,
      List.Subset.refl _⟩, rfl⟩⟩)
  | closed c entry todo node channel sent hcall =>
    refine Or.inr (Or.inr ⟨rfl, Or.inl ⟨c, _, _, ⟨hcall, rfl, rfl, rfl, ?_, ?_⟩, rfl⟩⟩)
    · exact (List.sublist_cons_self node todo).append_left sent
    · exact List.subset_cons_self node todo
  | sent c entry todo node channel sent ch hcall hch hopen hroom =>
    refine Or.inr (Or.inl ⟨c, _, _, node, channel, rfl, ⟨hcall, rfl, rfl, rfl, ?_, ?_⟩, rfl, rfl,
      rfl⟩)
    · simp [Call.pending]
    · exact List.subset_cons_self node todo
  | full c entry todo node channel sent hcall =>
    refine Or.inr (Or.inr ⟨rfl, Or.inl ⟨c, _, _, ⟨hcall, rfl, rfl, rfl, ?_, ?_⟩, rfl⟩⟩)
    · exact (List.sublist_cons_self node todo).append_left sent
    · exact List.subset_cons_self node todo
  | remove c entry todo node sent hcall =>
    exact Or.inr (Or.inr ⟨rfl, Or.inl ⟨c, _, _, ⟨hcall, rfl, rfl, rfl, List.Sublist.refl _,
      List.Subset.refl _⟩, rfl⟩⟩)
  | recv channel node taken e queue hch => exact Or.inr (Or.inr ⟨rfl, Or.inr ⟨rfl, rfl⟩⟩)
  | close channel ch hch => exact Or.inr (Or.inr ⟨rfl, Or.inr ⟨rfl, rfl⟩⟩)

/-- The calls are numbered in order, and no call may still send to a replica that a later one has
sent to. -/
structure Lined (s : Engine) : Prop where
  counter : s.sequence = UInt64.ofNat s.calls.length
  numbered : ∀ (c : Nat) (call : Call), s.calls[c]? = some call → call.entry.sequence.toNat = c
  distinct : ∀ (c : Nat) (call : Call), s.calls[c]? = some call → (call.sent ++ call.pending).Nodup
  passed : ∀ (c c' : Nat) (call earlier : Call), c' < c → s.calls[c]? = some call →
    s.calls[c']? = some earlier → ∀ node ∈ call.sent, node ∉ earlier.pending

theorem lined_start (s : Engine) (hs : Lined s) (nodes : List String)
    (partitionKey signal : String) (walBytes : List UInt8) (hnodup : nodes.Nodup)
    (hlt : s.calls.length < 2 ^ 64) : Lined (s.start nodes partitionKey signal walBytes) := by
  -- a call of the new list is an old one, or the new one at the end
  have hcases : ∀ (c : Nat) call,
      (s.start nodes partitionKey signal walBytes).calls[c]? = some call →
      c < s.calls.length ∧ s.calls[c]? = some call ∨ c = s.calls.length ∧
        call = ⟨⟨s.sequence, partitionKey, signal, walBytes⟩, nodes, .next, []⟩ := by
    intro c call hcall
    rw [Engine.start, List.getElem?_append] at hcall
    split at hcall
    next hold => exact Or.inl ⟨hold, hcall⟩
    next hge =>
      obtain ⟨hzero, hcall⟩ := List.getElem?_eq_some_iff.mp hcall
      simp only [List.length_singleton] at hzero
      refine Or.inr ⟨by omega, ?_⟩
      simpa using hcall.symm
  refine ⟨?_, ?_, ?_, ?_⟩
  · change s.sequence + 1 = UInt64.ofNat (s.calls ++ [_]).length
    rw [hs.counter, List.length_append, List.length_singleton, UInt64.ofNat_add]
    rfl
  · intro c call hcall
    obtain ⟨_, hold⟩ | ⟨rfl, rfl⟩ := hcases c call hcall
    · exact hs.numbered c call hold
    · change s.sequence.toNat = _
      rw [hs.counter, UInt64.toNat_ofNat_of_lt' hlt]
  · intro c call hcall
    obtain ⟨_, hold⟩ | ⟨rfl, rfl⟩ := hcases c call hcall
    · exact hs.distinct c call hold
    · exact hnodup
  · intro c c' call earlier hbefore hcall hearlier node hnode
    obtain ⟨hc, hold⟩ | ⟨rfl, rfl⟩ := hcases c call hcall
    · obtain ⟨_, hold'⟩ | ⟨rfl, rfl⟩ := hcases c' earlier hearlier
      · exact hs.passed c c' call earlier hbefore hold hold' node hnode
      · exact absurd (hbefore.trans hc) (Nat.lt_irrefl _)
    · cases hnode

theorem Moves.lined {s t : Engine} {c : Nat} {old new : Call} (hm : Moves s t c old new)
    (hs : Lined s) (hturn : ∀ node ∈ new.sent, node ∈ old.sent ∨
      ∀ c' < c, ∀ earlier, s.calls[c']? = some earlier → node ∉ earlier.pending) : Lined t := by
  have hcases : ∀ (c' : Nat) call, t.calls[c']? = some call →
      c' = c ∧ call = new ∨ c' ≠ c ∧ s.calls[c']? = some call := by
    intro c' call hcall
    rw [hm.calls] at hcall
    by_cases heq : c' = c
    · subst heq
      rw [List.getElem?_set_self (List.getElem?_eq_some_iff.mp hm.was).1] at hcall
      cases hcall
      exact Or.inl ⟨rfl, rfl⟩
    · rw [List.getElem?_set_ne (Ne.symm heq)] at hcall
      exact Or.inr ⟨heq, hcall⟩
  refine ⟨?_, ?_, ?_, ?_⟩
  · rw [hm.sequence, hm.calls, List.length_set, hs.counter]
  · intro c' call hcall
    obtain ⟨rfl, rfl⟩ | ⟨_, hsame⟩ := hcases c' call hcall
    · rw [hm.entry]
      exact hs.numbered c' old hm.was
    · exact hs.numbered c' call hsame
  · intro c' call hcall
    obtain ⟨rfl, rfl⟩ | ⟨_, hsame⟩ := hcases c' call hcall
    · exact (hs.distinct c' old hm.was).sublist hm.rest
    · exact hs.distinct c' call hsame
  · intro c₁ c₂ call earlier hbefore hcall hearlier node hnode
    obtain ⟨rfl, rfl⟩ | ⟨_, hsame⟩ := hcases c₁ call hcall
    · obtain ⟨rfl, rfl⟩ | ⟨_, hsame'⟩ := hcases c₂ earlier hearlier
      · exact absurd hbefore (Nat.lt_irrefl _)
      · obtain hold | hnew := hturn node hnode
        · exact hs.passed c₁ c₂ old earlier hbefore hm.was hsame' node hold
        · exact hnew c₂ hbefore earlier hsame'
    · obtain ⟨rfl, rfl⟩ | ⟨_, hsame'⟩ := hcases c₂ earlier hearlier
      · have hnot := hs.passed c₁ c₂ call old hbefore hsame hm.was node hnode
        exact fun hpending => hnot (hm.fewer hpending)
      · exact hs.passed c₁ c₂ call earlier hbefore hsame hsame' node hnode

/-- Each entry a queue took is that of a call which remembers it, and the numbers increase. -/
structure Recorded (s : Engine) : Prop where
  calls : ∀ a ∈ s.accepted, ∃ (c : Nat) (call : Call), s.calls[c]? = some call ∧
    call.entry = a.entry ∧ a.node ∈ call.sent
  increasing : ∀ node, (s.numbers node).Pairwise (· < ·)

theorem Moves.remembered {s t : Engine} {c : Nat} {old new : Call} (hm : Moves s t c old new)
    (hsent : old.sent ⊆ new.sent) (entry : ReplicationEntry) (node : String)
    (h : ∃ (c : Nat) (call : Call), s.calls[c]? = some call ∧ call.entry = entry ∧
      node ∈ call.sent) :
    ∃ (c : Nat) (call : Call), t.calls[c]? = some call ∧ call.entry = entry ∧
      node ∈ call.sent := by
  obtain ⟨c', call, hcall, hentry, hnode⟩ := h
  rw [hm.calls]
  by_cases heq : c = c'
  · subst heq
    rw [hm.was] at hcall
    cases hcall
    exact ⟨c, new, List.getElem?_set_self (List.getElem?_eq_some_iff.mp hm.was).1,
      hm.entry.trans hentry, hsent hnode⟩
  · exact ⟨c', call, (List.getElem?_set_ne heq).trans hcall, hentry, hnode⟩

/-- A call that sends in turn comes after all calls that have sent to the replica. -/
theorem lt_of_lined (s : Engine) (hs : Lined s) (c : Nat) (call : Call) (node : String)
    (channel : Nat) (hcall : s.calls[c]? = some call) (hpc : call.pc = .sending node channel)
    (c' : Nat) (other : Call) (hother : s.calls[c']? = some other) (hnode : node ∈ other.sent) :
    other.entry.sequence < call.entry.sequence := by
  have hpending : node ∈ call.pending := by
    rw [Call.pending, hpc]
    exact List.mem_cons_self
  have hne : c' ≠ c := by
    rintro rfl
    rw [hcall] at hother
    cases hother
    exact List.disjoint_of_nodup_append (hs.distinct c' call hcall) hnode hpending
  have hlt : ¬ c < c' := fun hlt => hs.passed c' c other call hlt hother hcall node hnode hpending
  rw [UInt64.lt_iff_toNat_lt, hs.numbered c' other hother, hs.numbered c call hcall]
  omega

theorem numbers_append (s t : Engine) (a : Accepted) (h : t.accepted = s.accepted ++ [a])
    (node : String) :
    t.numbers node = s.numbers node ++ if a.node = node then [a.entry.sequence] else [] := by
  unfold Engine.numbers
  rw [h, List.filter_append, List.map_append]
  by_cases he : a.node = node <;> simp [he]

theorem recorded_send (s t : Engine) (hs : Lined s) (hr : Recorded s) (c : Nat) (old new : Call)
    (node : String) (channel : Nat) (hm : Moves s t c old new)
    (hpc : old.pc = .sending node channel) (hsent : new.sent = old.sent ++ [node])
    (haccepted : t.accepted = s.accepted ++ [⟨node, channel, old.entry⟩]) : Recorded t where
  calls := by
    intro a ha
    rw [haccepted] at ha
    obtain hold | hnew := List.mem_append.mp ha
    · exact hm.remembered (hsent ▸ List.subset_append_left _ _) _ _ (hr.calls a hold)
    · rw [List.mem_singleton.mp hnew, hm.calls]
      exact ⟨c, new, List.getElem?_set_self (List.getElem?_eq_some_iff.mp hm.was).1, hm.entry,
        by simp [hsent]⟩
  increasing := by
    intro node'
    rw [numbers_append s t _ haccepted]
    by_cases he : node = node'
    · subst he
      rw [if_pos rfl, List.pairwise_append]
      refine ⟨hr.increasing node, List.pairwise_singleton _ _, ?_⟩
      intro number hnumber last hlast
      rw [List.mem_singleton.mp hlast]
      obtain ⟨a, ha, rfl⟩ := List.mem_map.mp hnumber
      obtain ⟨hmem, hnode⟩ := List.mem_filter.mp ha
      obtain ⟨c', other, hother, hentry, hin⟩ := hr.calls a hmem
      rw [← hentry]
      exact lt_of_lined s hs c old node channel hm.was hpc c' other hother
        (of_decide_eq_true hnode ▸ hin)
    · rw [if_neg he, List.append_nil]
      exact hr.increasing node'

theorem ordered_step (s : Engine) (a : Action) (t : Engine) (h : Lined s ∧ Recorded s)
    (hok : InTurn s a) (hstep : step s a = some t) : Lined t ∧ Recorded t := by
  obtain ⟨hs, hr⟩ := h
  obtain ⟨nodes, partitionKey, signal, walBytes, rfl, rfl⟩ |
    ⟨c, old, new, node, channel, rfl, hm, hpc, hsent, haccepted⟩ |
    ⟨haccepted, ⟨c, old, new, hm, hsent⟩ | ⟨hcalls, hsequence⟩⟩ :=
      step_cases s t a (stepped s t a hstep)
  · refine ⟨lined_start s hs nodes partitionKey signal walBytes hok.1 hok.2, ?_, hr.increasing⟩
    intro a ha
    obtain ⟨c, call, hcall, hentry, hnode⟩ := hr.calls a ha
    have hlt := (List.getElem?_eq_some_iff.mp hcall).1
    exact ⟨c, call, (List.getElem?_append_left hlt).trans hcall, hentry, hnode⟩
  · refine ⟨hm.lined hs ?_, recorded_send s t hs hr c old new node channel hm hpc hsent haccepted⟩
    intro node' hnode'
    rw [hsent] at hnode'
    obtain hold | hnew := List.mem_append.mp hnode'
    · exact Or.inl hold
    · rw [List.mem_singleton.mp hnew]
      exact Or.inr (InTurn.earlier hok hm.was hpc)
  · refine ⟨hm.lined hs fun node hnode => Or.inl (hsent ▸ hnode), ?_, ?_⟩
    · intro a ha
      rw [haccepted] at ha
      exact hm.remembered (hsent ▸ List.Subset.refl _) _ _ (hr.calls a ha)
    · unfold Engine.numbers
      rw [haccepted]
      exact hr.increasing
  · refine ⟨⟨by rw [hsequence, hcalls, hs.counter], hcalls ▸ hs.numbered, hcalls ▸ hs.distinct,
      hcalls ▸ hs.passed⟩, ?_, ?_⟩
    · rw [haccepted, hcalls]
      exact hr.calls
    · unfold Engine.numbers
      rw [haccepted]
      exact hr.increasing

/-- Each replica is sent entries in the order of their numbers, and so is each of its queues,
which has them in that order. -/
structure InOrder (s : Engine) : Prop where
  replicas : ∀ node, (s.numbers node).Pairwise (· < ·)
  queues : ∀ ch ∈ s.channels,
    ((ch.taken ++ ch.queue).map ReplicationEntry.sequence).Pairwise (· < ·)
  linked : Linked s

theorem Linked.numbers_sublist {s : Engine} (h : Linked s) (channel : Nat) (ch : Channel)
    (hch : s.channels[channel]? = some ch) :
    ((ch.taken ++ ch.queue).map ReplicationEntry.sequence).Sublist (s.numbers ch.node) := by
  have hown : s.accepted.filter (fun a => a.channel = channel) =
      (s.accepted.filter fun a => a.node = ch.node).filter fun a => a.channel = channel := by
    rw [List.filter_filter]
    refine List.filter_congr fun a ha => ?_
    obtain ⟨ch', hch', hnode⟩ := h.replicas a ha
    by_cases he : a.channel = channel
    · rw [he, hch] at hch'
      cases hch'
      simp [he, hnode]
    · simp [he]
  rw [← h.queues channel ch hch, Engine.through, hown, List.map_map]
  exact List.filter_sublist.map _

/-- In every state of a run whose calls send in turn, every replica's queue has received entries in
strictly increasing order. -/
theorem replication_order (acts : List Action) (t : Engine)
    (h : run step Engine.new acts = some t) (hok : Along step InTurn Engine.new acts) :
    InOrder t := by
  obtain ⟨hs, hr⟩ := run_invariant step InTurn (fun s => Lined s ∧ Recorded s) ordered_step acts
    Engine.new t ⟨⟨rfl, by simp [Engine.new], by simp [Engine.new], by simp [Engine.new]⟩,
      by simp [Engine.new], by simp [Engine.new, Engine.numbers]⟩ hok h
  have hl := run_invariant step InTurn Linked (fun s a t hl _ hstep => linked_step s a t hl hstep)
    acts Engine.new t ⟨by simp [Engine.new], by simp [Engine.new], by simp [Engine.new],
      by simp [Engine.new]⟩ hok h
  refine ⟨hr.increasing, ?_, hl⟩
  intro ch hch
  obtain ⟨channel, hchannel⟩ := List.mem_iff_getElem?.mp hch
  exact (hr.increasing ch.node).sublist (hl.numbers_sublist channel ch hchannel)

/-- Two calls under way at once, with the replicas in another order, that send in turn; one queue
is drained in between. -/
def inTurn : List Action :=
  [.start ["r", "q"] "" "logs" [], .start ["q", "r"] "" "logs" [], .getSender 0 true, .trySend 0,
    .getSender 0 true, .getSender 1 true, .trySend 0, .trySend 1, .recv 1, .getSender 1 true,
    .trySend 1]

def turnTaken : Engine := (run step Engine.new inTurn).getD Engine.new

theorem replication_order_in_turn :
    turnTaken.numbers "r" = [0, 1] ∧ turnTaken.numbers "q" = [0, 1] ∧ InOrder turnTaken :=
  ⟨rfl, rfl, replication_order inTurn turnTaken rfl (by decide +kernel)⟩

/-- The second call sends first: the replica's queue has 1 before 0. -/
theorem replication_overtaken :
    ∃ t, run step Engine.new [.start ["r"] "" "logs" [], .start ["r"] "" "logs" [],
        .getSender 0 true, .getSender 1 true, .trySend 1, .trySend 0] = some t ∧
      t.channels.map (fun ch => ch.queue.map ReplicationEntry.sequence) = [[1, 0]] ∧
      ¬ InOrder t := by
  refine ⟨_, rfl, rfl, fun h => ?_⟩
  have hr := h.replicas "r"
  revert hr
  decide +kernel

end InfraLens.Replication
