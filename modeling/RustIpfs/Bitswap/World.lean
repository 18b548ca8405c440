import RustIpfs.Bitswap.Behaviour

/-!
# The engine in its swarm

The engine is driven from outside: the user calls its public methods, background tasks push on
the two channels, and libp2p reports connections, hands over handler messages and polls. `World`
adds to the engine what libp2p knows, the number of open connections per peer, and two records of
the run: the actions `poll` has returned, and for each peer the want list that the engine had when
the peer's latest connection was established (the one `send_want_list` then sends). A run is any
interleaving of `Input`s that libp2p can produce (`Input.Allowed`); `Reachable` collects the worlds
of such runs from the default engine, with the inputs restricted further by `allowed`.
-/

namespace RustIpfs

/-- What drives the engine: a public call, a swarm event, a handler message, an item sent on one of
the two channels (`queued_blocks.unbounded_send`, `dont_have_tx.unbounded_send`), or a poll that
visits the ledgers in the order `order`. -/
inductive Input (PeerId Cid : Type)
  | connect (peerId : PeerId)
  | wantBlock (cid : Cid) (priority : Priority)
  | wantBlockFromPeers (cid : Cid) (priority : Priority) (peers : List PeerId)
  | cancelBlock (cid : Cid)
  | sendBlock (peerId : PeerId) (block : Block Cid)
  | dontHave (cid : Cid)
  | dontHaveForPeer (peerId : PeerId) (cid : Cid)
  | connectionEstablished (peerId : PeerId)
  | connectionClosed (peerId : PeerId)
  | handlerEvent (source : PeerId) (message : MessageWrapper Cid)
  | sendReadyBlock (peerId : PeerId) (block : Block Cid)
  | sendDontHave (peerId : PeerId) (cid : Cid)
  | poll (order : List PeerId)

/-- Whether an input is a call of `want_block_from_peers`. -/
def Input.callsWantBlockFromPeers {PeerId Cid : Type} : Input PeerId Cid → Bool
  | .wantBlockFromPeers .. => true
  | _ => false

/-- The engine, the open connections per peer, the actions `poll` has returned in order, and the
want list announced to each peer at its latest connection. -/
structure World (PeerId Cid : Type) where
  engine : Bitswap PeerId Cid
  connections : PeerId → Nat
  polled : List (Action PeerId Cid)
  announced : PeerId → List (Cid × Priority)

variable {PeerId Cid : Type} [DecidableEq PeerId] [DecidableEq Cid]

namespace World

/-- The default engine, with no connection. -/
def init : World PeerId Cid := ⟨Bitswap.default, fun _ => 0, [], fun _ => []⟩

/-- One input. A connection event carries the number of the peer's other connections, which is
what libp2p counts before (established) or after (closed) the event. -/
def step (w : World PeerId Cid) : Input PeerId Cid → World PeerId Cid
  | .connect p => { w with engine := w.engine.connect p }
  | .wantBlock c priority => { w with engine := w.engine.wantBlock c priority }
  | .wantBlockFromPeers c priority peers =>
    { w with engine := w.engine.wantBlockFromPeers c priority peers }
  | .cancelBlock c => { w with engine := w.engine.cancelBlock c }
  | .sendBlock p block => { w with engine := w.engine.sendBlock p block }
  | .dontHave c => { w with engine := w.engine.dontHave c }
  | .dontHaveForPeer p c => { w with engine := w.engine.dontHaveForPeer p c }
  | .connectionEstablished p =>
    { w with
      engine := w.engine.onSwarmEvent (.connectionEstablished p (w.connections p))
      connections := Function.update w.connections p (w.connections p + 1)
      announced := Function.update w.announced p w.engine.localWantlist }
  | .connectionClosed p =>
    { w with
      engine := w.engine.onSwarmEvent (.connectionClosed p (w.connections p - 1))
      connections := Function.update w.connections p (w.connections p - 1) }
  | .handlerEvent p message => { w with engine := w.engine.onConnectionHandlerEvent p message }
  | .sendReadyBlock p block =>
    { w with engine := { w.engine with readyBlocks := w.engine.readyBlocks ++ [(p, block)] } }
  | .sendDontHave p c =>
    { w with engine := { w.engine with dontHaveRx := w.engine.dontHaveRx ++ [(p, c)] } }
  | .poll order =>
    match w.engine.poll order with
    | (engine, .ready action) => { w with engine, polled := w.polled ++ [action] }
    | (engine, .pending) => { w with engine }

/-- The world after a sequence of inputs. -/
def run (w : World PeerId Cid) (inputs : List (Input PeerId Cid)) : World PeerId Cid :=
  inputs.foldl step w

@[simp] theorem engine_step_poll (w : World PeerId Cid) (order : List PeerId) :
    (w.step (.poll order)).engine = (w.engine.poll order).1 := by
  simp only [step]; split <;> simp_all

@[simp] theorem announced_step_poll (w : World PeerId Cid) (order : List PeerId) :
    (w.step (.poll order)).announced = w.announced := by
  simp only [step]; split <;> rfl

/-- A poll returns the first queued action; with none queued, it drains the two channels and
returns what the ledger loop returns, if anything. -/
theorem step_poll (w : World PeerId Cid) (order : List PeerId) :
    (∃ e es, w.engine.events = e :: es ∧ w.step (.poll order) =
      { w with engine := { w.engine with events := es }, polled := w.polled ++ [e] }) ∨
    (w.engine.events = [] ∧ w.step (.poll order) =
      { w with
        engine := (w.engine.drainDontHave.drainReadyBlocks.pollLedgers order).1
        polled := w.polled ++
          (w.engine.drainDontHave.drainReadyBlocks.pollLedgers order).2.toList }) := by
  rcases he : w.engine.events with _ | ⟨e, es⟩
  · refine .inr ⟨rfl, ?_⟩
    rcases hl : w.engine.drainDontHave.drainReadyBlocks.pollLedgers order with ⟨s', _ | a⟩ <;>
      simp [step, Bitswap.poll, he, hl]
  · exact .inl ⟨e, es, rfl, by simp [step, Bitswap.poll, he]⟩

end World

/-- The inputs libp2p can produce: a connection closes, and a handler reports, only while the peer
has a connection; a poll visits each connected peer's ledger once. -/
def Input.Allowed (w : World PeerId Cid) : Input PeerId Cid → Prop
  | .connectionClosed p | .handlerEvent p _ => 0 < w.connections p
  | .poll order => order.Nodup ∧ ∀ p, p ∈ order ↔ (w.engine.connectedPeers p).isSome
  | _ => True

/-- The worlds of the runs from `World.init` whose inputs libp2p can produce and `allowed` admits. -/
inductive Reachable (allowed : Input PeerId Cid → Prop) : World PeerId Cid → Prop
  | init : Reachable allowed World.init
  | step {w : World PeerId Cid} (i : Input PeerId Cid) : Reachable allowed w → i.Allowed w →
      allowed i → Reachable allowed (w.step i)

/-! ## A second connection to a connected peer

`on_swarm_event` answers every `ConnectionEstablished` with `Ledger::new()`, also when
`other_established` says the peer is already connected; the ledger it replaces is lost with what
was queued in it. -/

/-- Peer `0` connects, a block is sent to it, and it opens a second connection. -/
def blockBeforeSecondConnection : World Nat Nat :=
  World.init.run [.connectionEstablished 0, .sendBlock 0 ⟨0, []⟩, .connectionEstablished 0]

/-- **A second connection drops a queued block.** Peer `0` stays connected from its first
connection on, the block given to `send_block` was queued in its ledger, and after the second
connection it is neither queued nor carried by any message, queued or returned by `poll`. -/
theorem second_connection_drops_queued_block :
    Reachable (fun _ : Input Nat Nat => True) blockBeforeSecondConnection ∧
    ((World.init.run [.connectionEstablished 0, .sendBlock 0 ⟨0, []⟩] :
      World Nat Nat).engine.connectedPeers 0).map (·.queuedBlocks) = some [⟨0, []⟩] ∧
    blockBeforeSecondConnection.connections 0 = 2 ∧
    (blockBeforeSecondConnection.engine.connectedPeers 0).map (·.queuedBlocks) = some [] ∧
    blockBeforeSecondConnection.polled = [] ∧ blockBeforeSecondConnection.engine.events = [] :=
  ⟨.step (.connectionEstablished 0) (.step (.sendBlock 0 ⟨0, []⟩)
    (.step (.connectionEstablished 0) .init trivial trivial) trivial trivial) trivial trivial,
    by decide⟩

/-- Peer `0` connects, CID `0` is wanted and the want is polled out to it, the want is cancelled,
and the peer opens a second connection. -/
def cancelBeforeSecondConnection : World Nat Nat :=
  World.init.run [.connectionEstablished 0, .wantBlock 0 1, .poll [0], .cancelBlock 0,
    .connectionEstablished 0]

/-- **A second connection drops a pending cancel.** The only message to peer `0` wants CID `0`, the
cancel for it was pending in the peer's ledger, and after the second connection CID `0` is no
longer wanted and no cancel for it is pending. -/
theorem second_connection_drops_pending_cancel :
    Reachable (fun _ : Input Nat Nat => True) cancelBeforeSecondConnection ∧
    ((World.init.run [.connectionEstablished 0, .wantBlock 0 1, .poll [0], .cancelBlock 0] :
      World Nat Nat).engine.connectedPeers 0).map (·.sentCancels) = some [0] ∧
    cancelBeforeSecondConnection.connections 0 = 2 ∧
    cancelBeforeSecondConnection.polled ++ cancelBeforeSecondConnection.engine.events =
      [.notifyHandler 0 ⟨[(0, 1)], [], []⟩] ∧
    cancelBeforeSecondConnection.engine.wantedBlocks.lookup 0 = none ∧
    (cancelBeforeSecondConnection.engine.connectedPeers 0).map (·.sentCancels) = some [] := by
  have hpoll : ∀ p, p ∈ [0] ↔ ((World.init.run [.connectionEstablished 0, .wantBlock 0 1] :
      World Nat Nat).engine.connectedPeers p).isSome := fun p => by
    by_cases hp : p = 0
    · subst hp; decide
    · simp [hp, World.run, World.step, World.init, Bitswap.default, Bitswap.wantBlock,
        Bitswap.mapLedgers, Bitswap.onSwarmEvent, Bitswap.sendWantList, Bitswap.pushEvent]
  have hr : Reachable (fun _ : Input Nat Nat => True)
      (World.init.run [.connectionEstablished 0, .wantBlock 0 1]) :=
    .step (.wantBlock 0 1) (.step (.connectionEstablished 0) .init trivial trivial) trivial trivial
  exact ⟨.step (.connectionEstablished 0) (.step (.cancelBlock 0)
    (.step (.poll [0]) hr ⟨by decide, hpoll⟩ trivial) trivial trivial) trivial trivial, by decide⟩

end RustIpfs
