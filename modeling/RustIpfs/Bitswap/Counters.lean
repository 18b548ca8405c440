import Mathlib.Algebra.Group.Nat.Basic
import RustIpfs.Bitswap.World

/-!
# Statistics and dials over runs

Two counters of the engine are read over whole runs of arbitrary inputs: the per-peer
`sent_blocks` statistic and the `Dial` actions. Both depend only on what `Bitswap.bookkeeping`
reads (the dial targets, the statistics, which peers have a ledger, and the dials and blocks
queued), which every input but `connect`, a connection event and `poll` keeps, while only
appending to the queue (`Bitswap.Quiet`, `World.step_quiet`). What one step can do is said once
(`World.step_cases`), and each invariant below is a short case analysis of it.

From the default engine, the statistics count, modulo `2^64`, the blocks of the messages `poll`
takes from the ledgers, over the whole run (`run_stats`, from the invariant `World.Counted`). The
actions of a world, those returned by `poll` and those still queued, only grow, and the dials of a
peer among them exceed the connections established to it by at most one (`run_dials`).
-/

namespace RustIpfs

variable {PeerId Cid : Type} [DecidableEq PeerId]

/-- The number of blocks an action sends to `p`: those of a message for `p`. -/
def Action.blocksTo (p : PeerId) : Action PeerId Cid → Nat
  | .notifyHandler q message => if q = p then message.blocks.length else 0
  | _ => 0

/-- The number of blocks a list of actions sends to `p`. -/
def blocksSentTo (p : PeerId) : List (Action PeerId Cid) → Nat
  | [] => 0
  | a :: as => a.blocksTo p + blocksSentTo p as

@[simp] theorem blocksSentTo_nil (p : PeerId) :
    blocksSentTo p ([] : List (Action PeerId Cid)) = 0 :=
  rfl

@[simp] theorem blocksSentTo_cons (p : PeerId) (a : Action PeerId Cid)
    (as : List (Action PeerId Cid)) :
    blocksSentTo p (a :: as) = a.blocksTo p + blocksSentTo p as :=
  rfl

@[simp] theorem blocksSentTo_append (p : PeerId) :
    ∀ as bs : List (Action PeerId Cid),
      blocksSentTo p (as ++ bs) = blocksSentTo p as + blocksSentTo p bs
  | [], _ => (Nat.zero_add _).symm
  | a :: as, bs => by
    rw [List.cons_append, blocksSentTo_cons, blocksSentTo_append p as, blocksSentTo_cons,
      Nat.add_assoc]

variable [DecidableEq Cid]

/-- A want list message carries no block. -/
@[simp] theorem Message.blocks_foldl_wantBlock :
    ∀ (entries : List (Σ _ : Cid, Priority)) (m : Message Cid),
      (entries.foldl (fun m e => m.wantBlock e.1 e.2) m).blocks = m.blocks
  | [], _ => rfl
  | _ :: entries, _ => Message.blocks_foldl_wantBlock entries _

/-- What the two counters read of the engine: the dial targets, the statistics, which peers have
a ledger, and, for each peer, the dials and the blocks queued. -/
structure Bookkeeping (PeerId : Type) where
  targetPeers : PeerId → Bool
  stats : PeerId → Option Stats
  hasLedger : PeerId → Bool
  queuedDials : PeerId → Nat
  queuedBlocks : PeerId → Nat

namespace Bitswap

/-- The engine's bookkeeping. -/
def bookkeeping (s : Bitswap PeerId Cid) : Bookkeeping PeerId :=
  ⟨s.targetPeers, s.stats, fun p => (s.connectedPeers p).isSome,
    fun p => s.events.count (.dial p), fun p => blocksSentTo p s.events⟩

/-! ## Steps that keep the bookkeeping -/

/-- `s'` has the bookkeeping of `s`, and its queue extends that of `s`. -/
structure Quiet (s s' : Bitswap PeerId Cid) : Prop where
  bookkeeping_eq : s'.bookkeeping = s.bookkeeping
  events_prefix : s.events <+: s'.events

variable {s s₁ s₂ s₃ : Bitswap PeerId Cid}

theorem Quiet.refl (s : Bitswap PeerId Cid) : Quiet s s := ⟨rfl, List.prefix_refl _⟩

theorem Quiet.trans (h₁ : Quiet s₁ s₂) (h₂ : Quiet s₂ s₃) : Quiet s₁ s₃ :=
  ⟨h₂.bookkeeping_eq.trans h₁.bookkeeping_eq, h₁.events_prefix.trans h₂.events_prefix⟩

theorem Quiet.targetPeers_eq (h : Quiet s₁ s₂) : s₂.targetPeers = s₁.targetPeers :=
  congrArg Bookkeeping.targetPeers h.1

theorem Quiet.stats_eq (h : Quiet s₁ s₂) : s₂.stats = s₁.stats :=
  congrArg Bookkeeping.stats h.1

theorem Quiet.count_dial_eq (h : Quiet s₁ s₂) (p : PeerId) :
    s₂.events.count (.dial p) = s₁.events.count (.dial p) :=
  congrFun (congrArg Bookkeeping.queuedDials h.1) p

theorem Quiet.blocksSentTo_eq (h : Quiet s₁ s₂) (p : PeerId) :
    blocksSentTo p s₂.events = blocksSentTo p s₁.events :=
  congrFun (congrArg Bookkeeping.queuedBlocks h.1) p

/-- The global want list is not bookkeeping. -/
theorem Quiet.setWantedBlocks (h : Quiet s₁ s₂) (wantedBlocks : WantList Cid) :
    Quiet s₁ { s₂ with wantedBlocks } :=
  ⟨h.1, h.2⟩

/-- A loop whose every turn is quiet is quiet. -/
theorem Quiet.foldl {α : Type} {g : Bitswap PeerId Cid → α → Bitswap PeerId Cid}
    (hg : ∀ s x, Quiet s (g s x)) (xs : List α) (s : Bitswap PeerId Cid) :
    Quiet s (xs.foldl g s) :=
  List.foldlRecOn (motive := Quiet s) xs g s (.refl s) fun s' h x _ => h.trans (hg s' x)

theorem quiet_pushEvent (s : Bitswap PeerId Cid) {action : Action PeerId Cid}
    (h : ∀ p, action ≠ .dial p) (hb : ∀ p, action.blocksTo p = 0) :
    Quiet s (s.pushEvent action) :=
  ⟨by simp [bookkeeping, pushEvent, List.count_singleton', (h _).symm, hb],
    List.prefix_append _ _⟩

theorem quiet_modifyLedger (s : Bitswap PeerId Cid) (p : PeerId) (f : Ledger Cid → Ledger Cid) :
    Quiet s (s.modifyLedger p f) := by
  unfold modifyLedger
  split
  · refine ⟨?_, List.prefix_refl _⟩
    simp only [bookkeeping, Bookkeeping.mk.injEq, true_and, and_true]
    funext q
    by_cases hq : q = p
    · subst hq; simp [*]
    · simp [hq]
  · exact .refl s

theorem quiet_mapLedgers (s : Bitswap PeerId Cid) (f : Ledger Cid → Ledger Cid) :
    Quiet s (s.mapLedgers f) :=
  ⟨by simp [bookkeeping, mapLedgers], List.prefix_refl _⟩

theorem quiet_cancelBlock (s : Bitswap PeerId Cid) (c : Cid) : Quiet s (s.cancelBlock c) :=
  (s.quiet_mapLedgers _).setWantedBlocks _

theorem quiet_sendWantList (s : Bitswap PeerId Cid) (p : PeerId) :
    Quiet s (s.sendWantList p) := by
  unfold sendWantList
  split
  · exact s.quiet_pushEvent (fun _ h => by cases h)
      fun _ => by simp [Action.blocksTo, Message.empty]
  · exact .refl s

theorem quiet_onConnectionHandlerEvent (s : Bitswap PeerId Cid) (source : PeerId)
    (message : MessageWrapper Cid) : Quiet s (s.onConnectionHandlerEvent source message) := by
  have hturn : ∀ (s s' : Bitswap PeerId Cid) (event : BitswapEvent PeerId Cid), Quiet s s' →
      Quiet s (s'.pushEvent (.generateEvent event)) :=
    fun _ s' _ h => h.trans (s'.quiet_pushEvent (fun _ h => by cases h) fun _ => rfl)
  unfold onConnectionHandlerEvent
  split
  · exact .refl s
  · split
    · exact .refl s
    · dsimp only
      unfold receiveCancels receiveWants receiveBlocks
      exact ((Quiet.foldl (fun s c =>
          hturn s _ _ (s.quiet_modifyLedger source (·.removeReceivedWant c))) _ _).trans
        (Quiet.foldl (fun s (w : Cid × Priority) =>
          hturn s _ _ (s.quiet_modifyLedger source (·.insertReceivedWant w.1 w.2))) _ _)).trans
        (Quiet.foldl (fun s (b : Block Cid) => hturn s _ _ (s.quiet_cancelBlock b.cid)) _ _)

theorem quiet_drainDontHave (s : Bitswap PeerId Cid) : Quiet s s.drainDontHave :=
  have h : Quiet s { s with dontHaveRx := [] } := ⟨rfl, List.prefix_refl _⟩
  h.trans (Quiet.foldl (fun s (x : PeerId × Cid) => s.quiet_modifyLedger x.1 _) _ _)

theorem quiet_drainReadyBlocks (s : Bitswap PeerId Cid) : Quiet s s.drainReadyBlocks :=
  have h : Quiet s { s with readyBlocks := [] } := ⟨rfl, List.prefix_refl _⟩
  h.trans (Quiet.foldl (fun s (x : PeerId × Block Cid) => s.quiet_modifyLedger x.1 _) _ _)

/-! ## The ledger loop of `poll` -/

/-- The ledger loop returns nothing and changes nothing, or returns the message of a peer with a
ledger, stores the ledger `send` leaves, and counts the message's blocks in the peer's statistics
if it has an entry. -/
theorem pollLedgers_cases (s : Bitswap PeerId Cid) :
    ∀ order : List PeerId, s.pollLedgers order = (s, none) ∨
      ∃ p l message l', s.connectedPeers p = some l ∧ l.send = some (message, l') ∧
        s.pollLedgers order = ({ s with
          connectedPeers := Function.update s.connectedPeers p (some l')
          stats := match s.stats p with
            | some peerStats => Function.update s.stats p
                (some (peerStats.updateOutgoing message.blocks.length.toUInt64))
            | none => s.stats }, some (.notifyHandler p message))
  | [] => .inl rfl
  | p :: order => by
    rcases hp : s.connectedPeers p with _ | l
    · simp only [pollLedgers, hp]; exact pollLedgers_cases s order
    · rcases hl : l.send with _ | ⟨message, l'⟩
      · simp only [pollLedgers, hp, hl]; exact pollLedgers_cases s order
      · simp only [pollLedgers, hp, hl]; exact .inr ⟨p, l, message, l', hp, hl, rfl⟩

/-- The ledger loop keeps the queue. -/
theorem events_pollLedgers (s : Bitswap PeerId Cid) (order : List PeerId) :
    (s.pollLedgers order).1.events = s.events := by
  rcases s.pollLedgers_cases order with hpoll | ⟨q, l, message, l', -, -, hpoll⟩ <;> rw [hpoll]

/-- The ledger loop returns no dial. -/
theorem count_dial_pollLedgers (s : Bitswap PeerId Cid) (order : List PeerId) (p : PeerId) :
    (s.pollLedgers order).2.toList.count (.dial p) = 0 := by
  rcases s.pollLedgers_cases order with hpoll | ⟨q, l, message, l', -, -, hpoll⟩ <;>
    simp [hpoll]

/-- The ledger loop keeps the dial targets. -/
theorem targetPeers_pollLedgers (s : Bitswap PeerId Cid) (order : List PeerId) :
    (s.pollLedgers order).1.targetPeers = s.targetPeers := by
  rcases s.pollLedgers_cases order with hpoll | ⟨q, l, message, l', -, -, hpoll⟩ <;> rw [hpoll]

/-- A new connection, once it has reset its peer's target, ledger and statistics entry, is a quiet
step. -/
theorem quiet_connectionEstablished (s : Bitswap PeerId Cid) (q : PeerId) (n : Nat) :
    ∃ s₁ : Bitswap PeerId Cid, Quiet s₁ (s.onSwarmEvent (.connectionEstablished q n)) ∧
      s₁.events = s.events ∧ s₁.targetPeers = Function.update s.targetPeers q false :=
  ⟨_, quiet_sendWantList _ q, rfl, rfl⟩

end Bitswap

/-! ## Steps of the world -/

/-- An input that keeps the bookkeeping: any but `connect`, a connection event and `poll`. -/
def Input.isQuiet : Input PeerId Cid → Bool
  | .connect _ | .connectionEstablished _ | .connectionClosed _ | .poll _ => false
  | _ => true

/-- Whether an input is a connection established to `p`. -/
def Input.establishes (p : PeerId) : Input PeerId Cid → Bool
  | .connectionEstablished q => decide (q = p)
  | _ => false

/-- The action `poll` takes from a ledger at this input: what it returns when no action is
queued. -/
def World.ledgerAction (w : World PeerId Cid) : Input PeerId Cid → Option (Action PeerId Cid)
  | .poll order =>
    match w.engine.events, (w.engine.poll order).2 with
    | [], .ready action => some action
    | _, _ => none
  | _ => none

/-- The actions `poll` takes from the ledgers along a run of `inputs` from `w`. -/
def World.ledgerActions (w : World PeerId Cid) :
    List (Input PeerId Cid) → List (Action PeerId Cid)
  | [] => []
  | i :: inputs => (w.ledgerAction i).toList ++ (w.step i).ledgerActions inputs

/-- The actions of a world: those `poll` has returned, then those still queued. -/
def World.actions (w : World PeerId Cid) : List (Action PeerId Cid) :=
  w.polled ++ w.engine.events

namespace World

variable (w : World PeerId Cid)

/-- A quiet input is a quiet step of the engine; it returns nothing and takes nothing from a
ledger. -/
theorem step_quiet {i : Input PeerId Cid} (hi : i.isQuiet = true) :
    w.engine.Quiet (w.step i).engine ∧ (w.step i).polled = w.polled ∧
      w.ledgerAction i = none := by
  cases i <;> simp only [Input.isQuiet, Bool.false_eq_true] at hi <;> refine ⟨?_, rfl, rfl⟩
  case wantBlock c priority => exact (w.engine.quiet_mapLedgers _).setWantedBlocks _
  case cancelBlock c => exact w.engine.quiet_cancelBlock c
  case dontHave c => exact w.engine.quiet_mapLedgers (·.removeReceivedWant c)
  case sendBlock | dontHaveForPeer => exact Bitswap.quiet_modifyLedger _ _ _
  case wantBlockFromPeers c priority peers =>
    exact (Bitswap.Quiet.foldl (fun s p => s.quiet_modifyLedger p (·.wantBlock c priority)) peers
      w.engine).setWantedBlocks _
  case handlerEvent => exact Bitswap.quiet_onConnectionHandlerEvent _ _ _
  case sendReadyBlock | sendDontHave => exact ⟨rfl, List.prefix_refl _⟩

/-- What one step can do to the counters: a quiet step of the engine, a `connect`, a connection
established or closed, or a poll, which returns the first queued action or, with none queued, what
the ledger loop returns after a quiet drain of the two channels. -/
theorem step_cases (i : Input PeerId Cid) :
    (w.engine.Quiet (w.step i).engine ∧ (w.step i).polled = w.polled ∧
      w.ledgerAction i = none ∧ ∀ p, i.establishes p = false) ∨
    (∃ q, i = .connect q) ∨ (∃ q, i = .connectionEstablished q) ∨
    (∃ q, i = .connectionClosed q) ∨
    (∃ order e es, i = .poll order ∧ w.engine.events = e :: es ∧
      (w.step i).engine = { w.engine with events := es } ∧
      (w.step i).polled = w.polled ++ [e] ∧ w.ledgerAction i = none) ∨
    (∃ order s, i = .poll order ∧ w.engine.events = [] ∧ w.engine.Quiet s ∧
      (w.step i).engine = (s.pollLedgers order).1 ∧
      (w.step i).polled = w.polled ++ (s.pollLedgers order).2.toList ∧
      w.ledgerAction i = (s.pollLedgers order).2) := by
  cases hi : i.isQuiet
  · cases i <;> simp only [Input.isQuiet, Bool.true_eq_false] at hi
    case connect q => exact .inr (.inl ⟨q, rfl⟩)
    case connectionEstablished q => exact .inr (.inr (.inl ⟨q, rfl⟩))
    case connectionClosed q => exact .inr (.inr (.inr (.inl ⟨q, rfl⟩)))
    case poll order =>
      refine .inr (.inr (.inr (.inr ?_)))
      rcases he : w.engine.events with _ | ⟨e, es⟩
      · refine .inr ⟨order, _, rfl, rfl,
          w.engine.quiet_drainDontHave.trans (Bitswap.quiet_drainReadyBlocks _), ?_⟩
        rcases hl : w.engine.drainDontHave.drainReadyBlocks.pollLedgers order with
          ⟨s', _ | a⟩ <;> simp [step, ledgerAction, Bitswap.poll, he, hl]
      · exact .inl ⟨order, e, es, rfl, rfl, by simp [step, Bitswap.poll, he],
          by simp [step, Bitswap.poll, he], by simp [ledgerAction, he]⟩
  · obtain ⟨hq, hp, hl⟩ := w.step_quiet hi
    exact .inl ⟨hq, hp, hl, fun p => by cases i <;> first | rfl | cases hi⟩

end World

/-! ## The statistics -/

/-- `update_outgoing` adds modulo `2^64`. -/
theorem Stats.toNat_updateOutgoing (st : Stats) (n : Nat) :
    (st.updateOutgoing n.toUInt64).sentBlocks.toNat = (st.sentBlocks.toNat + n) % 2 ^ 64 :=
  Nat.add_mod_mod _ _ _

namespace Bitswap

/-- The statistics count `sent` blocks for each peer, modulo `2^64`: every peer with a ledger has
an entry, a peer without an entry has been sent nothing, and an entry holds what its peer was
sent. -/
structure StatsCount (s : Bitswap PeerId Cid) (sent : PeerId → Nat) : Prop where
  stats_of_ledger : ∀ p, (s.connectedPeers p).isSome → (s.stats p).isSome
  sent_of_none : ∀ p, s.stats p = none → sent p = 0
  sentBlocks : ∀ p st, s.stats p = some st → st.sentBlocks.toNat = sent p % 2 ^ 64

variable {s s₁ s₂ : Bitswap PeerId Cid} {sent : PeerId → Nat}

omit [DecidableEq PeerId] [DecidableEq Cid] in
theorem StatsCount.congr (h : StatsCount s₁ sent) (hs : s₂.stats = s₁.stats)
    (hc : ∀ p, (s₂.connectedPeers p).isSome = (s₁.connectedPeers p).isSome) :
    StatsCount s₂ sent :=
  ⟨fun p hp => hs ▸ h.1 p (hc p ▸ hp), hs ▸ h.2, hs ▸ h.3⟩

theorem StatsCount.of_quiet (h : StatsCount s₁ sent) (hq : Quiet s₁ s₂) :
    StatsCount s₂ sent :=
  h.congr hq.stats_eq (congrFun (congrArg Bookkeeping.hasLedger hq.1))

omit [DecidableEq Cid] in
theorem StatsCount.connect (h : StatsCount s sent) (p : PeerId) :
    StatsCount (s.connect p) sent := by
  unfold Bitswap.connect
  split
  · exact h
  · exact h.congr rfl fun _ => rfl

/-- A new connection gives its peer a ledger and, if it has none, a zero entry. -/
theorem StatsCount.connectionEstablished (h : StatsCount s sent) (p : PeerId) (n : Nat) :
    StatsCount (s.onSwarmEvent (.connectionEstablished p n)) sent := by
  refine StatsCount.of_quiet ?_ (quiet_sendWantList _ p)
  rcases hs : s.stats p with _ | st
  · refine ⟨fun q hq => ?_, fun q hq => ?_, fun q st hq => ?_⟩ <;> by_cases hqp : q = p
    · subst hqp; simp
    · simp only [Function.update_noteq hqp] at hq ⊢; exact h.1 q hq
    · subst hqp; simp at hq
    · simp only [Function.update_noteq hqp] at hq; exact h.2 q hq
    · subst hqp; simp only [Function.update_same, Option.some.injEq] at hq
      simp [← hq, Stats.default, h.2 q hs]
    · simp only [Function.update_noteq hqp] at hq; exact h.3 q st hq
  · refine ⟨fun q hq => ?_, h.2, h.3⟩
    rcases eq_or_ne q p with rfl | hqp
    · simp [hs]
    · simp only [Function.update_noteq hqp] at hq ⊢; exact h.1 q hq

theorem StatsCount.connectionClosed (h : StatsCount s sent) (p : PeerId) (n : Nat) :
    StatsCount (s.onSwarmEvent (.connectionClosed p n)) sent := by
  refine ⟨fun q hq => h.1 q ?_, h.2, h.3⟩
  rcases eq_or_ne q p with rfl | hqp
  · simp [onSwarmEvent] at hq
  · simpa [onSwarmEvent, hqp] using hq

/-- The ledger loop counts the blocks it sends in the statistics: the ledger it reads belongs to a
peer with an entry. -/
theorem StatsCount.pollLedgers (h : StatsCount s sent) (order : List PeerId) :
    StatsCount (s.pollLedgers order).1
      fun q => sent q + blocksSentTo q (s.pollLedgers order).2.toList := by
  rcases s.pollLedgers_cases order with hpoll | ⟨p, l, message, l', hl, -, hpoll⟩ <;> rw [hpoll]
  · simpa using h
  obtain ⟨st, hst⟩ := Option.isSome_iff_exists.1 (h.1 p (by rw [hl]; rfl))
  simp only [hst]
  refine ⟨fun q hq => ?_, fun q hq => ?_, fun q st' hq => ?_⟩ <;> by_cases hqp : q = p
  · subst hqp; simp
  · simp only [Function.update_noteq hqp] at hq ⊢; exact h.1 q hq
  · subst hqp; simp at hq
  · simp only [Function.update_noteq hqp] at hq
    simpa [Action.blocksTo, Ne.symm hqp] using h.2 q hq
  · subst hqp; simp only [Function.update_same, Option.some.injEq] at hq
    simp [← hq, Stats.toNat_updateOutgoing, h.3 q st hst, Action.blocksTo]
  · simp only [Function.update_noteq hqp] at hq
    simpa [Action.blocksTo, Ne.symm hqp] using h.3 q st' hq

/-- A connection keeps every entry of the statistics. -/
theorem stats_isSome_connectionEstablished (s : Bitswap PeerId Cid) {p : PeerId}
    (hp : (s.stats p).isSome) (q : PeerId) (n : Nat) :
    ((s.onSwarmEvent (.connectionEstablished q n)).stats p).isSome := by
  simp only [onSwarmEvent]
  rw [(quiet_sendWantList _ q).stats_eq]
  split
  · exact hp
  · by_cases hpq : p = q
    · subst hpq; simp
    · simpa [hpq] using hp

/-- The ledger loop keeps every entry of the statistics. -/
theorem stats_isSome_pollLedgers (s : Bitswap PeerId Cid) {p : PeerId} (hp : (s.stats p).isSome)
    (order : List PeerId) : ((s.pollLedgers order).1.stats p).isSome := by
  rcases s.pollLedgers_cases order with hpoll | ⟨q, l, message, l', -, -, hpoll⟩ <;> rw [hpoll]
  · exact hp
  · rcases hs : s.stats q with _ | st <;> simp only [hs]
    · exact hp
    · by_cases hpq : p = q
      · subst hpq; simp
      · simpa [hpq] using hp

end Bitswap

namespace World

variable (w : World PeerId Cid)

/-- One step keeps the count of the statistics, adding the blocks it takes from a ledger. -/
theorem statsCount_step {sent : PeerId → Nat} (h : w.engine.StatsCount sent)
    (i : Input PeerId Cid) :
    (w.step i).engine.StatsCount fun p => sent p + blocksSentTo p (w.ledgerAction i).toList := by
  rcases w.step_cases i with ⟨hq, -, hl, -⟩ | ⟨q, rfl⟩ | ⟨q, rfl⟩ | ⟨q, rfl⟩ |
    ⟨order, e, es, rfl, -, hs, -, hl⟩ | ⟨order, s, rfl, -, hq, hs, -, hl⟩
  · simpa [hl] using h.of_quiet hq
  · simpa [ledgerAction] using h.connect q
  · simpa [ledgerAction] using h.connectionEstablished q (w.connections q)
  · simpa [ledgerAction] using h.connectionClosed q (w.connections q - 1)
  · rw [hs, hl]
    simpa using (h.congr rfl fun _ => rfl : Bitswap.StatsCount { w.engine with events := es } sent)
  · rw [hs, hl]
    exact (h.of_quiet hq).pollLedgers order

/-- One step keeps the queue free of blocks, and the actions `poll` returns gain the blocks it
takes from a ledger. -/
theorem blocksSentTo_step (hq : ∀ p, blocksSentTo p w.engine.events = 0) (i : Input PeerId Cid) :
    (∀ p, blocksSentTo p (w.step i).engine.events = 0) ∧
    ∀ p, blocksSentTo p (w.step i).polled =
      blocksSentTo p w.polled + blocksSentTo p (w.ledgerAction i).toList := by
  rcases w.step_cases i with ⟨hq', hp, hl, -⟩ | ⟨q, rfl⟩ | ⟨q, rfl⟩ | ⟨q, rfl⟩ |
    ⟨order, e, es, rfl, hev, hs, hp, hl⟩ | ⟨order, s, rfl, -, hq', hs, hp, hl⟩
  · exact ⟨fun p => (hq'.blocksSentTo_eq p).trans (hq p), fun p => by simp [hp, hl]⟩
  · refine ⟨fun p => ?_, fun p => rfl⟩
    simp only [step, Bitswap.connect]
    split
    · exact hq p
    · simp [Bitswap.pushEvent, hq, Action.blocksTo]
  · obtain ⟨s₁, hq', he, -⟩ := w.engine.quiet_connectionEstablished q (w.connections q)
    exact ⟨fun p => (hq'.blocksSentTo_eq p).trans (he ▸ hq p), fun p => rfl⟩
  · exact ⟨hq, fun p => rfl⟩
  · rw [hs, hp, hl]
    have hb : ∀ p, e.blocksTo p = 0 ∧ blocksSentTo p es = 0 := fun p => by
      simpa [hev] using hq p
    exact ⟨fun p => (hb p).2, fun p => by simp [(hb p).1]⟩
  · rw [hs, hp, hl]
    exact ⟨fun p => by rw [Bitswap.events_pollLedgers, hq'.blocksSentTo_eq p, hq p],
      fun p => by simp⟩

/-- One step keeps every entry of the statistics. -/
theorem stats_isSome_step {p : PeerId} (hp : (w.engine.stats p).isSome) (i : Input PeerId Cid) :
    ((w.step i).engine.stats p).isSome := by
  rcases w.step_cases i with ⟨hq, -⟩ | ⟨q, rfl⟩ | ⟨q, rfl⟩ | ⟨q, rfl⟩ |
    ⟨order, e, es, rfl, -, hs, -⟩ | ⟨order, s, rfl, -, hq, hs, -⟩
  · rwa [hq.stats_eq]
  · simp only [step, Bitswap.connect]
    split <;> exact hp
  · exact w.engine.stats_isSome_connectionEstablished hp q (w.connections q)
  · exact hp
  · rwa [hs]
  · rw [hs]
    exact s.stats_isSome_pollLedgers (by rwa [hq.stats_eq]) order

/-- The statistics of a world count the blocks of the messages `poll` has returned, none of which
is still queued. -/
structure Counted (w : World PeerId Cid) (sent : PeerId → Nat) : Prop where
  stats : w.engine.StatsCount sent
  polled : ∀ p, blocksSentTo p w.polled = sent p
  queued : ∀ p, blocksSentTo p w.engine.events = 0

omit [DecidableEq Cid] in
theorem Counted.init : (World.init : World PeerId Cid).Counted fun _ => 0 :=
  ⟨⟨fun _ h => (nomatch h), fun _ _ => rfl, fun _ _ h => (nomatch h)⟩, fun _ => rfl,
    fun _ => rfl⟩

variable {w}

theorem Counted.step {sent : PeerId → Nat} (h : w.Counted sent) (i : Input PeerId Cid) :
    (w.step i).Counted fun p => sent p + blocksSentTo p (w.ledgerAction i).toList :=
  have hb := w.blocksSentTo_step h.queued i
  ⟨w.statsCount_step h.stats i, fun p => by rw [hb.2 p, h.polled p], hb.1⟩

/-- Along a run, the count gains the blocks of the messages `poll` takes from the ledgers. -/
theorem Counted.run {sent : PeerId → Nat} (h : w.Counted sent)
    (inputs : List (Input PeerId Cid)) :
    (w.run inputs).Counted fun p => sent p + blocksSentTo p (w.ledgerActions inputs) := by
  induction inputs generalizing w sent with
  | nil => simpa [ledgerActions, run] using h
  | cons i inputs ih => simpa [ledgerActions, run, Nat.add_assoc] using ih (h.step i)

/-- Along a run, every entry of the statistics stays. -/
theorem stats_isSome_run {p : PeerId} (hp : (w.engine.stats p).isSome)
    (inputs : List (Input PeerId Cid)) : ((w.run inputs).engine.stats p).isSome := by
  induction inputs generalizing w with
  | nil => exact hp
  | cons i inputs ih => exact ih (w.stats_isSome_step hp i)

end World

/-- **The statistics.** Along any run of the engine, the statistics never lose an entry. Along a
run from the default engine, every peer with a ledger has an entry, and a peer's `sent_blocks` is,
modulo `2^64`, the number of blocks of the `NotifyHandler` messages `poll` has taken from its
ledger over the whole run, which is also the number of blocks of all the messages `poll` has
returned for it: those `send_want_list` queues carry none. Reference: `Stats::update_outgoing`
(`behaviour.rs:54-56`), `on_swarm_event` (`:259-275`), `poll` (`:363-396`). -/
theorem run_stats (inputs : List (Input PeerId Cid)) :
    (∀ (w : World PeerId Cid) p, (w.engine.stats p).isSome →
      ((w.run inputs).engine.stats p).isSome) ∧
    (∀ p, ((World.init.run inputs).engine.connectedPeers p).isSome →
      ((World.init.run inputs).engine.stats p).isSome) ∧
    ∀ p st, (World.init.run inputs).engine.stats p = some st →
      st.sentBlocks.toNat = blocksSentTo p (World.init.ledgerActions inputs) % 2 ^ 64 ∧
      st.sentBlocks.toNat = blocksSentTo p (World.init.run inputs).polled % 2 ^ 64 := by
  have h := World.Counted.init.run inputs
  refine ⟨fun w p hp => w.stats_isSome_run hp inputs, h.stats.1, fun p st hp => ?_⟩
  have hs := h.stats.3 p st hp
  simp only [Nat.zero_add] at hs
  exact ⟨hs, by rw [hs, h.polled p, Nat.zero_add]⟩

/-! ## Dials -/

namespace Bitswap

/-- `connect` dials only a peer that is no target yet, and makes it one. -/
theorem dials_connect (s : Bitswap PeerId Cid) (p q : PeerId) :
    s.events <+: (s.connect q).events ∧
    (s.connect q).events.count (.dial p) + (s.targetPeers p).toNat ≤
      s.events.count (.dial p) + ((s.connect q).targetPeers p).toNat := by
  unfold Bitswap.connect
  split
  · exact ⟨List.prefix_refl _, le_refl _⟩
  · next ht =>
    refine ⟨List.prefix_append _ _, ?_⟩
    by_cases hqp : q = p
    · subst hqp
      simp [pushEvent, ht]
    · simp [pushEvent, Function.update_noteq (Ne.symm hqp), Ne.symm hqp]

/-- A new connection queues no dial and makes its peer no target. -/
theorem dials_connectionEstablished (s : Bitswap PeerId Cid) (p q : PeerId) (n : Nat) :
    s.events <+: (s.onSwarmEvent (.connectionEstablished q n)).events ∧
    (s.onSwarmEvent (.connectionEstablished q n)).events.count (.dial p) +
        (s.targetPeers p).toNat ≤
      s.events.count (.dial p) +
        ((s.onSwarmEvent (.connectionEstablished q n)).targetPeers p).toNat +
        (decide (q = p)).toNat := by
  obtain ⟨s₁, hq, he, ht⟩ := s.quiet_connectionEstablished q n
  refine ⟨he ▸ hq.events_prefix, ?_⟩
  rw [hq.count_dial_eq, he, hq.targetPeers_eq, ht]
  by_cases hqp : q = p
  · subst hqp
    simp only [Function.update_same, decide_True, Bool.toNat_true, Bool.toNat_false]
    have := Bool.toNat_le (s.targetPeers q)
    omega
  · simp [Function.update_noteq (Ne.symm hqp), hqp]

end Bitswap

namespace World

variable (w : World PeerId Cid)

/-- One step only appends to the actions, and the dials of `p` among them grow by at most the
step's own dial, which makes `p` a target, or by one if the step establishes a connection to `p`,
which is the one step that makes it no target again. -/
theorem actions_step (p : PeerId) (i : Input PeerId Cid) :
    w.actions <+: (w.step i).actions ∧
    (w.step i).actions.count (.dial p) + (w.engine.targetPeers p).toNat ≤
      w.actions.count (.dial p) + ((w.step i).engine.targetPeers p).toNat +
        (i.establishes p).toNat := by
  rcases w.step_cases i with ⟨hq, hp, -, he⟩ | ⟨q, rfl⟩ | ⟨q, rfl⟩ | ⟨q, rfl⟩ |
    ⟨order, e, es, rfl, hev, hs, hp, -⟩ | ⟨order, s, rfl, hev, hq, hs, hp, -⟩
  · rw [actions, actions, hp, he, List.count_append, List.count_append, hq.count_dial_eq,
      hq.targetPeers_eq]
    exact ⟨(List.prefix_append_right_inj _).2 hq.2, by simp⟩
  · obtain ⟨h₁, h₂⟩ := w.engine.dials_connect p q
    simp only [step, actions, Input.establishes, List.count_append]
    exact ⟨(List.prefix_append_right_inj _).2 h₁, by omega⟩
  · obtain ⟨h₁, h₂⟩ := w.engine.dials_connectionEstablished p q (w.connections q)
    simp only [step, actions, Input.establishes, List.count_append]
    exact ⟨(List.prefix_append_right_inj _).2 h₁, by omega⟩
  · exact ⟨List.prefix_refl _,
      by simp [step, actions, Bitswap.onSwarmEvent, Input.establishes]⟩
  · rw [actions, actions, hs, hp, hev]
    simp [Input.establishes]
  · rw [actions, actions, hs, hp, hev, Bitswap.events_pollLedgers,
      Bitswap.targetPeers_pollLedgers, hq.targetPeers_eq]
    refine ⟨by simp, ?_⟩
    rw [List.count_append, List.count_append, Bitswap.count_dial_pollLedgers, hq.count_dial_eq, hev]
    simp [Input.establishes]

variable {w}

/-- Along a run, the actions only grow, and the dials of `p` among them grow by at most one more
than the connections established to `p`, less one if `p` was a target before the run and plus
one if it is one after. -/
theorem actions_run (p : PeerId) (inputs : List (Input PeerId Cid)) :
    w.actions <+: (w.run inputs).actions ∧
    (w.run inputs).actions.count (.dial p) + (w.engine.targetPeers p).toNat ≤
      w.actions.count (.dial p) + ((w.run inputs).engine.targetPeers p).toNat +
        inputs.countP (·.establishes p) := by
  induction inputs generalizing w with
  | nil => exact ⟨List.prefix_refl _, by simp [run]⟩
  | cons i inputs ih =>
    obtain ⟨h₁, h₂⟩ := w.actions_step p i
    obtain ⟨ih₁, ih₂⟩ := ih (w := w.step i)
    have hi : (i.establishes p).toNat = if i.establishes p then 1 else 0 := by
      cases i.establishes p <;> rfl
    refine ⟨h₁.trans ih₁, ?_⟩
    rw [List.countP_cons]
    simp only [run, List.foldl_cons] at ih₂ ⊢
    omega

end World

/-- **Dials.** Along any run of the engine, the actions it has queued or returned only grow, and
the `Dial` actions for a peer `p` among them number at most one more than the connections to `p`
established during the run, from the default engine; any number of inputs without a connection
established to `p`, such as repeated `connect(p)` calls, adds at most one. Reference:
`Bitswap::connect` (`behaviour.rs:161-169`), `on_swarm_event` (`:259-268`). -/
theorem run_dials (p : PeerId) :
    (∀ (w : World PeerId Cid) inputs, w.actions <+: (w.run inputs).actions) ∧
    (∀ inputs : List (Input PeerId Cid),
      (World.init.run inputs).actions.count (.dial p) ≤ 1 + inputs.countP (·.establishes p)) ∧
    ∀ (w : World PeerId Cid) inputs, (∀ i ∈ inputs, i.establishes p = false) →
      (w.run inputs).actions.count (.dial p) ≤ w.actions.count (.dial p) + 1 := by
  refine ⟨fun w inputs => (World.actions_run p inputs).1, fun inputs => ?_,
    fun w inputs hi => ?_⟩
  · have h := (World.actions_run (w := World.init) p inputs).2
    have ht := Bool.toNat_le ((World.init.run inputs).engine.targetPeers p)
    have h₀ : (World.init : World PeerId Cid).actions = [] := rfl
    have ht₀ : (World.init : World PeerId Cid).engine.targetPeers p = false := rfl
    rw [h₀, ht₀, List.count_nil, Bool.toNat_false] at h
    omega
  · have h := (World.actions_run (w := w) p inputs).2
    have ht := Bool.toNat_le ((w.run inputs).engine.targetPeers p)
    rw [List.countP_eq_zero.2 fun i hm => by simp [hi i hm]] at h
    omega

end RustIpfs
