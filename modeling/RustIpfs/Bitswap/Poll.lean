import RustIpfs.Bitswap.World

/-!
# When `poll` answers `Pending`

`poll` answers `Pending` only after it has drained both channels and asked every ledger in its
iteration order (`pollLedgers_eq_none_iff`). The first drain only drops received wants, so it
leaves each ledger with or without something to send; the second queues each ready block in its
peer's ledger, which then has something to send, and drops the blocks of a peer with no ledger
(`drains_idle`, from `foldl_modifyLedger_idle`, one lemma for both loops). With an order that
visits every connected peer, `poll` therefore answers `Pending` exactly when no action is queued,
no connected peer's ledger has a block, a cancel or a want to send, and no ready block waits for a
connected peer (`poll_pending`): a poll leaves no work behind, and returns nothing when there is
none.
-/

namespace RustIpfs

variable {PeerId Cid : Type} [DecidableEq PeerId] [DecidableEq Cid]

/-- A ledger with nothing to send: no queued block, no pending cancel, no unsent want. -/
def Ledger.Idle (l : Ledger Cid) : Prop :=
  l.queuedBlocks = [] ∧ l.sentCancels = [] ∧ l.unsentWants.entries = []

/-- `send` has nothing to return exactly for an idle ledger. -/
theorem Ledger.send_eq_none_iff (l : Ledger Cid) : l.send = none ↔ l.Idle := by
  unfold Ledger.send Ledger.Idle
  split_ifs with h <;> simp [h]

/-- A ledger that is given a block has something to send. -/
theorem Ledger.not_idle_addBlock (l : Ledger Cid) (block : Block Cid) :
    ¬(l.addBlock block).Idle := by
  unfold Ledger.addBlock Ledger.Idle
  split
  · next h => exact fun hi => by simp [hi.1] at h
  · simp

namespace Bitswap

omit [DecidableEq Cid] in
theorem connectedPeers_modifyLedger (s : Bitswap PeerId Cid) (q p : PeerId)
    (f : Ledger Cid → Ledger Cid) :
    (s.modifyLedger q f).connectedPeers p =
      if p = q then (s.connectedPeers p).map f else s.connectedPeers p := by
  unfold modifyLedger
  split
  · next l hl =>
    by_cases hpq : p = q
    · subst hpq; simp [hl]
    · simp [hpq]
  · next hq =>
    split_ifs with hpq
    · subst hpq; simp [hq]
    · rfl

omit [DecidableEq Cid] in
theorem readyBlocks_modifyLedger (s : Bitswap PeerId Cid) (q : PeerId)
    (f : Ledger Cid → Ledger Cid) : (s.modifyLedger q f).readyBlocks = s.readyBlocks := by
  unfold modifyLedger; split <;> rfl

omit [DecidableEq Cid] in
/-- A loop of `modifyLedger` whose update `f a` keeps a ledger idle or busy, unless `adds a`, when
it makes it busy: afterwards the ready blocks and the peers with a ledger are the same, and a peer's
ledger is idle iff it was and no item for the peer adds. -/
theorem foldl_modifyLedger_idle {α : Type} (f : α → Ledger Cid → Ledger Cid) (adds : α → Prop)
    (hf : ∀ a l, (f a l).Idle ↔ l.Idle ∧ ¬adds a) (p : PeerId) :
    ∀ (items : List (PeerId × α)) (s : Bitswap PeerId Cid),
      (items.foldl (fun s item => s.modifyLedger item.1 (f item.2)) s).readyBlocks =
        s.readyBlocks ∧
      ((items.foldl (fun s item => s.modifyLedger item.1 (f item.2)) s).connectedPeers p).isSome =
        (s.connectedPeers p).isSome ∧
      ∀ l', (items.foldl (fun s item => s.modifyLedger item.1 (f item.2)) s).connectedPeers p =
          some l' →
        ∃ l, s.connectedPeers p = some l ∧ (l'.Idle ↔ l.Idle ∧ ∀ a, (p, a) ∈ items → ¬adds a)
  | [], _ => ⟨rfl, rfl, fun l' h => ⟨l', h, by simp⟩⟩
  | (q, a) :: items, s => by
    obtain ⟨hr, hsome, hidle⟩ :=
      foldl_modifyLedger_idle f adds hf p items (s.modifyLedger q (f a))
    refine ⟨hr.trans (s.readyBlocks_modifyLedger q _), hsome.trans ?_, fun l' hl' => ?_⟩
    · rw [connectedPeers_modifyLedger]; split_ifs <;> simp
    obtain ⟨l₁, hl₁, hiff⟩ := hidle l' hl'
    rw [connectedPeers_modifyLedger] at hl₁
    split_ifs at hl₁ with hpq
    · subst hpq
      obtain ⟨l, hl, rfl⟩ := Option.map_eq_some'.1 hl₁
      refine ⟨l, hl, hiff.trans ?_⟩
      simp only [hf, List.mem_cons, Prod.mk.injEq, true_and]
      constructor
      · rintro ⟨⟨hl, ha⟩, hrest⟩
        exact ⟨hl, fun a' h => h.elim (fun e => e ▸ ha) (hrest a')⟩
      · rintro ⟨hl, hall⟩
        exact ⟨⟨hl, hall a (.inl rfl)⟩, fun a' h => hall a' (.inr h)⟩
    · exact ⟨l₁, hl₁, hiff.trans (by simp [hpq])⟩

/-- The two drains of `poll`: the first only drops received wants, the second gives a block to each
connected peer that has one waiting. So the same peers have a ledger after them, and a peer's
ledger is idle iff it was and no ready block waits for the peer. -/
theorem drains_idle (s : Bitswap PeerId Cid) (p : PeerId) :
    (s.drainDontHave.drainReadyBlocks.connectedPeers p).isSome = (s.connectedPeers p).isSome ∧
    ∀ l', s.drainDontHave.drainReadyBlocks.connectedPeers p = some l' →
      ∃ l, s.connectedPeers p = some l ∧ (l'.Idle ↔ l.Idle ∧ ∀ b, (p, b) ∉ s.readyBlocks) := by
  obtain ⟨hr, hsome₁, hidle₁⟩ := foldl_modifyLedger_idle (fun c l => l.removeReceivedWant c)
    (fun _ => False) (fun _ _ => (and_iff_left not_false).symm) p s.dontHaveRx
    { s with dontHaveRx := [] }
  obtain ⟨-, hsome₂, hidle₂⟩ := foldl_modifyLedger_idle (fun b l => l.addBlock b) (fun _ => True)
    (fun b l => iff_of_false (l.not_idle_addBlock b) fun h => h.2 trivial) p
    s.drainDontHave.readyBlocks { s.drainDontHave with readyBlocks := [] }
  have hr : s.drainDontHave.readyBlocks = s.readyBlocks := hr
  refine ⟨hsome₂.trans hsome₁, fun l'' hl'' => ?_⟩
  obtain ⟨l', hl', hiff₂⟩ := hidle₂ l'' hl''
  obtain ⟨l, hl, hiff₁⟩ := hidle₁ l' hl'
  exact ⟨l, hl, hiff₂.trans (by simp [hiff₁, hr])⟩

/-- The ledger loop returns nothing exactly when every ledger it visits is idle. -/
theorem pollLedgers_eq_none_iff (s : Bitswap PeerId Cid) : ∀ order : List PeerId,
    (s.pollLedgers order).2 = none ↔ ∀ p ∈ order, ∀ l, s.connectedPeers p = some l → l.Idle
  | [] => by simp [pollLedgers]
  | p :: order => by
    have ih := s.pollLedgers_eq_none_iff order
    rcases hp : s.connectedPeers p with _ | l
    · simp [pollLedgers, hp, ih]
    · rcases hs : l.send with _ | ⟨message, l'⟩
      · simp [pollLedgers, hp, hs, ih, (l.send_eq_none_iff).1 hs]
      · have : ¬l.Idle := by rw [← l.send_eq_none_iff, hs]; simp
        simp [pollLedgers, hp, hs, this]

/-- **When `poll` answers `Pending`.** For every state of the engine and every iteration order that
visits every connected peer, `poll` answers `Pending` exactly when no action is queued, every
connected peer's ledger has no queued block, no pending cancel and no unsent want, and no ready
block waits for a connected peer. Ready blocks for a peer with no ledger are dropped. Reference:
`poll` (`behaviour.rs:362-397`), `send_block` (`:174-179`), `dont_have_for_peer` (`:230-236`). -/
theorem poll_pending (s : Bitswap PeerId Cid) (order : List PeerId)
    (horder : ∀ p, (s.connectedPeers p).isSome → p ∈ order) :
    (s.poll order).2 = .pending ↔ s.events = [] ∧
      ∀ p l, s.connectedPeers p = some l → l.Idle ∧ ∀ b, (p, b) ∉ s.readyBlocks := by
  rcases he : s.events with _ | ⟨e, es⟩
  · have hpoll : (s.poll order).2 = .pending ↔
        (s.drainDontHave.drainReadyBlocks.pollLedgers order).2 = none := by
      simp only [poll, he]
      rcases s.drainDontHave.drainReadyBlocks.pollLedgers order with ⟨_, _ | _⟩ <;> simp
    rw [hpoll, pollLedgers_eq_none_iff, and_iff_right rfl]
    constructor
    · intro h p l hl
      obtain ⟨hsome, hidle⟩ := s.drains_idle p
      have : (s.drainDontHave.drainReadyBlocks.connectedPeers p).isSome := by rw [hsome, hl]; rfl
      obtain ⟨l', hl'⟩ := Option.isSome_iff_exists.1 this
      obtain ⟨l₀, hl₀, hiff⟩ := hidle l' hl'
      obtain rfl : l₀ = l := Option.some.inj (hl₀.symm.trans hl)
      exact hiff.1 (h p (horder p (by rw [hl]; rfl)) l' hl')
    · intro h p _ l' hl'
      obtain ⟨l, hl, hiff⟩ := (s.drains_idle p).2 l' hl'
      exact hiff.2 (h p l hl)
  · simp [poll, he]

/-- Peer `0` of two connects, `send_block` queues a block in its ledger, and another block waits
for it on the ready-blocks channel. -/
def blockQueuedAndReady : World (Fin 2) Nat :=
  World.init.run [.connectionEstablished 0, .sendBlock 0 ⟨0, []⟩, .sendReadyBlock 0 ⟨1, []⟩]

theorem poll_pending_blockQueuedAndReady :
    (∀ p, (blockQueuedAndReady.engine.connectedPeers p).isSome → p ∈ [0]) ∧
    (blockQueuedAndReady.engine.connectedPeers 0).map (·.queuedBlocks) = some [⟨0, []⟩] ∧
    blockQueuedAndReady.engine.readyBlocks = [(0, ⟨1, []⟩)] ∧
    (blockQueuedAndReady.engine.poll [0]).2 ≠ .pending ∧
    ((blockQueuedAndReady.engine.poll [0]).2 = .pending ↔
      blockQueuedAndReady.engine.events = [] ∧
      ∀ p l, blockQueuedAndReady.engine.connectedPeers p = some l →
        l.Idle ∧ ∀ b, (p, b) ∉ blockQueuedAndReady.engine.readyBlocks) :=
  have horder : ∀ p, (blockQueuedAndReady.engine.connectedPeers p).isSome → p ∈ [0] := by
    decide
  ⟨horder, by decide, by decide, by decide, poll_pending _ _ horder⟩

end Bitswap

end RustIpfs
