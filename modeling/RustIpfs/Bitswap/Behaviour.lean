import RustIpfs.Bitswap.Ledger

/-!
# The Bitswap engine

`Bitswap` of `src/deprecated/bitswap/src/behaviour.rs`: the ledgers of the connected peers, the
dial targets, the global want list, the FIFO of actions for the swarm, the per-peer statistics and
what waits in the receiving ends of the two channels. The hash maps are functions updated with
`Function.update`, the hash set is its membership test, the `VecDeque` is a list with the front
first. A `for` over `connected_peers` is `mapLedgers`, a `get_mut` on one peer is `modifyLedger`;
`poll` visits the ledgers in an order it is given, the map's iteration order.
-/

namespace RustIpfs

/-- `BitswapEvent`, the events reported to the user. Reference: `behaviour.rs:36-40`. -/
inductive BitswapEvent (PeerId Cid : Type)
  | receivedBlock (peer : PeerId) (block : Block Cid)
  | receivedWant (peer : PeerId) (cid : Cid) (priority : Priority)
  | receivedCancel (peer : PeerId) (cid : Cid)
  deriving DecidableEq, Repr

/-- The `ToSwarm` actions the engine queues and `poll` returns: a dial of a peer that is not
connected, a message for any connection of a peer, or an event for the user. -/
inductive Action (PeerId Cid : Type)
  | dial (peerId : PeerId)
  | notifyHandler (peerId : PeerId) (event : Message Cid)
  | generateEvent (event : BitswapEvent PeerId Cid)
  deriving DecidableEq, Repr

/-- `Stats`, with the one counter the engine updates; the `AtomicU64` wraps. -/
structure Stats where
  sentBlocks : UInt64
  deriving DecidableEq, Repr

/-- `Stats::default()`. -/
def Stats.default : Stats := ⟨0⟩

/-- `Stats::update_outgoing`: `fetch_add` adds modulo `2^64`. Reference: `behaviour.rs:54-56`. -/
def Stats.updateOutgoing (stats : Stats) (numBlocks : UInt64) : Stats :=
  ⟨stats.sentBlocks + numBlocks⟩

/-- The swarm events of `on_swarm_event`. libp2p emits one per connection, with the number of the
peer's other connections; `other` stands for the variants the engine ignores. -/
inductive FromSwarm (PeerId : Type)
  | connectionEstablished (peerId : PeerId) (otherEstablished : Nat)
  | connectionClosed (peerId : PeerId) (remainingEstablished : Nat)
  | other

/-- `MessageWrapper` of `crate::protocol`, as `on_connection_handler_event` matches it: the
acknowledgement of a sent message, or a received message. -/
inductive MessageWrapper (Cid : Type)
  | tx
  | rx (message : Message Cid)

/-- `Poll` of what `poll` returns. -/
inductive Poll (α : Type)
  | ready (a : α)
  | pending
  deriving DecidableEq, Repr

/-- The engine's state. Reference: `struct Bitswap` (`behaviour.rs:94-111`). -/
structure Bitswap (PeerId Cid : Type) where
  events : List (Action PeerId Cid)
  targetPeers : PeerId → Bool
  connectedPeers : PeerId → Option (Ledger Cid)
  wantedBlocks : WantList Cid
  readyBlocks : List (PeerId × Block Cid)
  dontHaveRx : List (PeerId × Cid)
  stats : PeerId → Option Stats

variable {PeerId Cid : Type} [DecidableEq PeerId] [DecidableEq Cid]

/-- `ledger.received_want_list.remove(&cid)`, written by the engine on the ledger's field. -/
def Ledger.removeReceivedWant (ledger : Ledger Cid) (cid : Cid) : Ledger Cid :=
  { ledger with receivedWantList := ledger.receivedWantList.erase cid }

/-- `ledger.received_want_list.insert(cid, priority)`. -/
def Ledger.insertReceivedWant (ledger : Ledger Cid) (cid : Cid) (priority : Priority) :
    Ledger Cid :=
  { ledger with receivedWantList := ledger.receivedWantList.insert cid priority }

namespace Bitswap

/-- `Bitswap::default()`. Reference: `behaviour.rs:113-130`. -/
def default : Bitswap PeerId Cid := ⟨[], fun _ => false, fun _ => none, ∅, [], [], fun _ => none⟩

/-- `Bitswap::local_wantlist`. -/
def localWantlist (s : Bitswap PeerId Cid) : List (Cid × Priority) :=
  s.wantedBlocks.entries.map fun e => (e.1, e.2)

/-- `Bitswap::peer_wantlist`. -/
def peerWantlist (s : Bitswap PeerId Cid) (peer : PeerId) : Option (List (Cid × Priority)) :=
  (s.connectedPeers peer).map Ledger.wantlist

/-- `self.events.push_back(action)`. -/
def pushEvent (s : Bitswap PeerId Cid) (action : Action PeerId Cid) : Bitswap PeerId Cid :=
  { s with events := s.events ++ [action] }

/-- `if let Some(ledger) = self.connected_peers.get_mut(&peer_id) { f(ledger) }`. -/
def modifyLedger (s : Bitswap PeerId Cid) (peerId : PeerId) (f : Ledger Cid → Ledger Cid) :
    Bitswap PeerId Cid :=
  match s.connectedPeers peerId with
  | some ledger =>
    { s with connectedPeers := Function.update s.connectedPeers peerId (some (f ledger)) }
  | none => s

/-- `for (_peer_id, ledger) in self.connected_peers.iter_mut() { f(ledger) }`. -/
def mapLedgers (s : Bitswap PeerId Cid) (f : Ledger Cid → Ledger Cid) : Bitswap PeerId Cid :=
  { s with connectedPeers := fun p => (s.connectedPeers p).map f }

/-- `Bitswap::connect`: `FnvHashSet::insert` answers whether the peer is new, and only a new
target is dialled. Reference: `behaviour.rs:161-169`. -/
def connect (s : Bitswap PeerId Cid) (peerId : PeerId) : Bitswap PeerId Cid :=
  if s.targetPeers peerId then s
  else { s with targetPeers := Function.update s.targetPeers peerId true }.pushEvent (.dial peerId)

/-- `Bitswap::send_block`. Reference: `behaviour.rs:174-179`. -/
def sendBlock (s : Bitswap PeerId Cid) (peerId : PeerId) (block : Block Cid) :
    Bitswap PeerId Cid :=
  s.modifyLedger peerId (·.addBlock block)

/-- `Bitswap::send_want_list`: the whole global want list in one message, if it is not empty.
Reference: `behaviour.rs:182-198`. -/
def sendWantList (s : Bitswap PeerId Cid) (peerId : PeerId) : Bitswap PeerId Cid :=
  if !s.wantedBlocks.entries.isEmpty then
    let message := s.wantedBlocks.entries.foldl (fun m e => m.wantBlock e.1 e.2) Message.empty
    s.pushEvent (.notifyHandler peerId message)
  else s

/-- `Bitswap::want_block`. Reference: `behaviour.rs:203-208`. -/
def wantBlock (s : Bitswap PeerId Cid) (cid : Cid) (priority : Priority) : Bitswap PeerId Cid :=
  { s.mapLedgers (·.wantBlock cid priority) with
    wantedBlocks := s.wantedBlocks.insert cid priority }

/-- `Bitswap::want_block_from_peers`. Reference: `behaviour.rs:213-220`. -/
def wantBlockFromPeers (s : Bitswap PeerId Cid) (cid : Cid) (priority : Priority)
    (peers : List PeerId) : Bitswap PeerId Cid :=
  { peers.foldl (fun s peer => s.modifyLedger peer (·.wantBlock cid priority)) s with
    wantedBlocks := s.wantedBlocks.insert cid priority }

/-- `Bitswap::dont_have`. Reference: `behaviour.rs:223-228`. -/
def dontHave (s : Bitswap PeerId Cid) (cid : Cid) : Bitswap PeerId Cid :=
  s.mapLedgers (·.removeReceivedWant cid)

/-- `Bitswap::dont_have_for_peer`; `shrink_to_fit` changes no entry. Reference:
`behaviour.rs:230-236`. -/
def dontHaveForPeer (s : Bitswap PeerId Cid) (peerId : PeerId) (cid : Cid) : Bitswap PeerId Cid :=
  s.modifyLedger peerId (·.removeReceivedWant cid)

/-- `Bitswap::cancel_block`. Reference: `behaviour.rs:242-247`. -/
def cancelBlock (s : Bitswap PeerId Cid) (cid : Cid) : Bitswap PeerId Cid :=
  { s.mapLedgers (·.cancelBlock cid) with wantedBlocks := s.wantedBlocks.erase cid }

/-- `Bitswap::on_swarm_event`. A connection replaces the peer's ledger by `Ledger::new()`, whatever
`other_established` says, and a closed connection removes it, whatever `remaining_established`
says. Reference: `behaviour.rs:259-275`. -/
def onSwarmEvent (s : Bitswap PeerId Cid) : FromSwarm PeerId → Bitswap PeerId Cid
  | .connectionEstablished peerId _ =>
    let s := { s with
      targetPeers := Function.update s.targetPeers peerId false
      stats := match s.stats peerId with
        | some _ => s.stats
        | none => Function.update s.stats peerId (some Stats.default)
      connectedPeers := Function.update s.connectedPeers peerId (some Ledger.new) }
    s.sendWantList peerId
  | .connectionClosed peerId _ =>
    { s with connectedPeers := Function.update s.connectedPeers peerId none }
  | .other => s

/-- The cancel loop of `on_connection_handler_event`. Reference: `behaviour.rs:331-337`. -/
def receiveCancels (source : PeerId) (s : Bitswap PeerId Cid) (cancels : List Cid) :
    Bitswap PeerId Cid :=
  cancels.foldl (fun s cid =>
    (s.modifyLedger source (·.removeReceivedWant cid)).pushEvent
      (.generateEvent (.receivedCancel source cid))) s

/-- The want loop of `on_connection_handler_event`: the wants whose CID is not in the want list
taken before the call. Reference: `behaviour.rs:340-350`. -/
def receiveWants (source : PeerId) (currentWantlist : List (Cid × Priority))
    (s : Bitswap PeerId Cid) (wants : List (Cid × Priority)) : Bitswap PeerId Cid :=
  (wants.filter fun w => !(currentWantlist.map Prod.fst).any (· == w.1)).foldl (fun s w =>
    (s.modifyLedger source (·.insertReceivedWant w.1 w.2)).pushEvent
      (.generateEvent (.receivedWant source w.1 w.2))) s

/-- The block loop of `on_connection_handler_event`. Reference: `behaviour.rs:353-359`. -/
def receiveBlocks (source : PeerId) (s : Bitswap PeerId Cid) (blocks : List (Block Cid)) :
    Bitswap PeerId Cid :=
  blocks.foldl (fun s block =>
    (s.cancelBlock block.cid).pushEvent (.generateEvent (.receivedBlock source block))) s

/-- `Bitswap::on_connection_handler_event`. Reference: `behaviour.rs:297-360`. -/
def onConnectionHandlerEvent (s : Bitswap PeerId Cid) (source : PeerId) :
    MessageWrapper Cid → Bitswap PeerId Cid
  | .tx => s
  | .rx message =>
    let currentWantlist := s.localWantlist
    match s.connectedPeers source with
    | none => s
    | some _ =>
      let s := receiveCancels source s message.cancel
      let s := receiveWants source currentWantlist s message.want
      receiveBlocks source s message.blocks

/-- The ledger loop of `poll`: the first ledger, in the iteration order `order`, with something to
send gives its message, and its peer's statistics count the message's blocks. Reference:
`behaviour.rs:382-394`. -/
def pollLedgers (s : Bitswap PeerId Cid) :
    List PeerId → Bitswap PeerId Cid × Option (Action PeerId Cid)
  | [] => (s, none)
  | peerId :: order =>
    match s.connectedPeers peerId with
    | none => pollLedgers s order
    | some ledger =>
      match ledger.send with
      | none => pollLedgers s order
      | some (message, ledger') =>
        ({ s with
          connectedPeers := Function.update s.connectedPeers peerId (some ledger')
          stats := match s.stats peerId with
            | some peerStats => Function.update s.stats peerId
                (some (peerStats.updateOutgoing message.blocks.length.toUInt64))
            | none => s.stats },
          some (.notifyHandler peerId message))

/-- The first loop of `poll`: every `(peer, cid)` waiting on the `dont_have` channel goes to
`dont_have_for_peer`. Reference: `behaviour.rs:374-376`. -/
def drainDontHave (s : Bitswap PeerId Cid) : Bitswap PeerId Cid :=
  s.dontHaveRx.foldl (fun s item => s.dontHaveForPeer item.1 item.2) { s with dontHaveRx := [] }

/-- The second loop of `poll`: every `(peer, block)` waiting on the `ready_blocks` channel goes to
`send_block`. Reference: `behaviour.rs:378-380`. -/
def drainReadyBlocks (s : Bitswap PeerId Cid) : Bitswap PeerId Cid :=
  s.readyBlocks.foldl (fun s item => s.sendBlock item.1 item.2) { s with readyBlocks := [] }

/-- `Bitswap::poll`: the queued actions first; otherwise drain the two channels, then ask the
ledgers. Reference: `behaviour.rs:362-397`. -/
def poll (s : Bitswap PeerId Cid) (order : List PeerId) :
    Bitswap PeerId Cid × Poll (Action PeerId Cid) :=
  match s.events with
  | event :: events => ({ s with events }, .ready event)
  | [] =>
    match s.drainDontHave.drainReadyBlocks.pollLedgers order with
    | (s', some action) => (s', .ready action)
    | (s', none) => (s', .pending)

/-! ## The want list sent to a new connection -/

/-- Recording distinct CIDs one after the other appends them to the message's wants. -/
theorem want_foldl_wantBlock : ∀ (entries : List (Σ _ : Cid, Priority)) (m : Message Cid),
    (entries.map Sigma.fst).Nodup → (∀ e ∈ entries, ∀ w ∈ m.want, w.1 ≠ e.1) →
    entries.foldl (fun m e => m.wantBlock e.1 e.2) m =
      ⟨m.want ++ entries.map fun e => (e.1, e.2), m.cancel, m.blocks⟩
  | [], ⟨_, _, _⟩, _, _ => by simp
  | e :: entries, m, hnd, hfresh => by
    rw [List.map_cons, List.nodup_cons] at hnd
    have hfilter : m.want.filter (·.1 ≠ e.1) = m.want :=
      List.filter_eq_self.2 fun w hw => decide_eq_true (hfresh e (List.mem_cons_self _ _) w hw)
    rw [List.foldl_cons, want_foldl_wantBlock entries _ hnd.2 fun e' he' w hw => ?_]
    · simp only [Message.wantBlock, hfilter, List.map_cons, List.append_assoc,
        List.singleton_append]
    · simp only [Message.wantBlock, hfilter, List.mem_append, List.mem_singleton] at hw
      rcases hw with hw | rfl
      · exact hfresh e' (List.mem_cons_of_mem _ he') w hw
      · exact fun h => hnd.1 (by rw [show e.1 = e'.1 from h]; exact List.mem_map_of_mem _ he')

omit [DecidableEq PeerId] in
/-- `send_want_list` queues one message with exactly the global want list, and nothing else, if
the list is not empty. -/
theorem sendWantList_eq (s : Bitswap PeerId Cid) (peerId : PeerId) :
    s.sendWantList peerId = if s.localWantlist = [] then s
      else s.pushEvent (.notifyHandler peerId ⟨s.localWantlist, [], []⟩) := by
  have hmsg := want_foldl_wantBlock s.wantedBlocks.entries Message.empty
    s.wantedBlocks.nodupKeys (fun _ _ _ hw => by cases hw)
  simp only [sendWantList, localWantlist, List.map_eq_nil_iff, hmsg]
  cases s.wantedBlocks.entries <;> rfl

/-- A connection appends to the queued actions the want-list message, if the global want list is
not empty, and nothing else. -/
theorem events_connectionEstablished (s : Bitswap PeerId Cid) (peerId : PeerId) (n : Nat) :
    (s.onSwarmEvent (.connectionEstablished peerId n)).events = s.events ++
      if s.localWantlist = [] then []
      else [.notifyHandler peerId ⟨s.localWantlist, [], []⟩] := by
  simp only [onSwarmEvent, sendWantList_eq, localWantlist]
  split_ifs <;> simp [pushEvent]

end Bitswap

end RustIpfs
