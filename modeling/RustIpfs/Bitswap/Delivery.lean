import RustIpfs.Bitswap.Counters

/-!
# Delivery of blocks over runs

A block reaches a peer only inside a `NotifyHandler` message that `poll` builds from the peer's
ledger (`Ledger::send`), and a block gets into a ledger only through `send_block`, called by the
user or by `poll` for each `(peer, block)` taken from the ready-blocks channel. `Bitswap.held`
counts, for a peer and a block, the copies the engine holds in each of these places: the queued
actions, the peer's ledger and the channel. No operation of the engine adds a copy
(`Bitswap.NoNewCopies`) except `send_block`, which adds at most the one it is given, and `poll`
moves the copies of one ledger into the message it returns (`Bitswap.held_pollLedgers`).

Over every run from the default engine, the copies of a block that the messages returned by `poll`
carry to a peer are therefore at most the times the block was handed over for that peer
(`run_delivery`): no submission is delivered twice, and no block goes to a peer it was not
submitted for.
-/

namespace RustIpfs

variable {PeerId Cid : Type} [DecidableEq PeerId] [DecidableEq Cid]

/-- The copies of `b` an action sends to `p`: those among the blocks of a message for `p`. -/
def Action.copiesTo (p : PeerId) (b : Block Cid) : Action PeerId Cid → Nat
  | .notifyHandler q message => if q = p then message.blocks.count b else 0
  | _ => 0

/-- The copies of `b` a list of actions sends to `p`. -/
def copiesSentTo (p : PeerId) (b : Block Cid) : List (Action PeerId Cid) → Nat
  | [] => 0
  | a :: as => a.copiesTo p b + copiesSentTo p b as

section Copies

variable (p : PeerId) (b : Block Cid)

@[simp] theorem copiesSentTo_nil : copiesSentTo p b ([] : List (Action PeerId Cid)) = 0 := rfl

@[simp] theorem copiesSentTo_cons (a : Action PeerId Cid) (as : List (Action PeerId Cid)) :
    copiesSentTo p b (a :: as) = a.copiesTo p b + copiesSentTo p b as :=
  rfl

@[simp] theorem copiesSentTo_append :
    ∀ as bs : List (Action PeerId Cid),
      copiesSentTo p b (as ++ bs) = copiesSentTo p b as + copiesSentTo p b bs
  | [], _ => (Nat.zero_add _).symm
  | a :: as, bs => by
    rw [List.cons_append, copiesSentTo_cons, copiesSentTo_append as, copiesSentTo_cons,
      Nat.add_assoc]

end Copies

/-- Whether an input hands `b` over for `p`: a call `send_block(p, b)`, or `(p, b)` sent on the
ready-blocks channel. -/
def Input.submits (p : PeerId) (b : Block Cid) : Input PeerId Cid → Bool
  | .sendBlock q block | .sendReadyBlock q block => decide (q = p ∧ block = b)
  | _ => false

/-! ## The block queue of a ledger -/

namespace Ledger

variable {l : Ledger Cid}

@[simp] theorem queuedBlocks_wantBlock (c : Cid) (priority : Priority) :
    (l.wantBlock c priority).queuedBlocks = l.queuedBlocks :=
  rfl

@[simp] theorem queuedBlocks_cancelBlock (c : Cid) :
    (l.cancelBlock c).queuedBlocks = l.queuedBlocks := by
  unfold cancelBlock; split <;> rfl

/-- `add_block` queues at most the one block it is given. -/
theorem count_addBlock (block b : Block Cid) :
    (l.addBlock block).queuedBlocks.count b ≤
      l.queuedBlocks.count b + (decide (block = b)).toNat := by
  unfold addBlock
  split
  · exact Nat.le_add_right _ _
  · by_cases hb : block = b <;> simp [List.count_append, List.count_cons, hb]

/-- `send` puts the queued blocks in its message and leaves none queued. -/
theorem send_blocks {message : Message Cid} {l' : Ledger Cid} (h : l.send = some (message, l')) :
    message.blocks = l.queuedBlocks ∧ l'.queuedBlocks = [] := by
  unfold send at h
  split_ifs at h
  cases h
  exact ⟨rfl, rfl⟩

end Ledger

/-! ## Copies held by the engine -/

namespace Bitswap

/-- The copies of `b` the engine holds for `p`: in the queued actions, in `p`'s ledger, and on the
ready-blocks channel. -/
def held (s : Bitswap PeerId Cid) (p : PeerId) (b : Block Cid) : Nat :=
  copiesSentTo p b s.events + ((s.connectedPeers p).map (·.queuedBlocks.count b)).getD 0 +
    s.readyBlocks.count (p, b)

/-- `s'` holds, for every peer, no more copies of any block than `s`. -/
def NoNewCopies (s s' : Bitswap PeerId Cid) : Prop := ∀ p b, s'.held p b ≤ s.held p b

variable {s s₁ s₂ s₃ : Bitswap PeerId Cid}

theorem NoNewCopies.refl (s : Bitswap PeerId Cid) : NoNewCopies s s := fun _ _ => le_refl _

theorem NoNewCopies.trans (h₁ : NoNewCopies s₁ s₂) (h₂ : NoNewCopies s₂ s₃) :
    NoNewCopies s₁ s₃ :=
  fun p b => (h₂ p b).trans (h₁ p b)

/-- A loop whose every turn adds no copy adds none. -/
theorem NoNewCopies.foldl {α : Type} {g : Bitswap PeerId Cid → α → Bitswap PeerId Cid}
    (hg : ∀ s x, NoNewCopies s (g s x)) (xs : List α) (s : Bitswap PeerId Cid) :
    NoNewCopies s (xs.foldl g s) :=
  List.foldlRecOn (motive := NoNewCopies s) xs g s (.refl s) fun s' h x _ => h.trans (hg s' x)

/-- The global want list holds no block. -/
theorem NoNewCopies.setWantedBlocks (h : NoNewCopies s₁ s₂) (wantedBlocks : WantList Cid) :
    NoNewCopies s₁ { s₂ with wantedBlocks } :=
  h

theorem noNewCopies_pushEvent (s : Bitswap PeerId Cid) {action : Action PeerId Cid}
    (h : ∀ p b, action.copiesTo p b = 0) : NoNewCopies s (s.pushEvent action) :=
  fun p b => by simp [held, pushEvent, h]

theorem noNewCopies_modifyLedger (s : Bitswap PeerId Cid) (q : PeerId)
    {f : Ledger Cid → Ledger Cid} (hf : ∀ l, (f l).queuedBlocks = l.queuedBlocks) :
    NoNewCopies s (s.modifyLedger q f) := fun p b => by
  unfold modifyLedger
  split
  · by_cases hp : p = q
    · subst hp; simp [held, *]
    · simp [held, hp]
  · exact le_refl _

theorem noNewCopies_mapLedgers (s : Bitswap PeerId Cid) {f : Ledger Cid → Ledger Cid}
    (hf : ∀ l, (f l).queuedBlocks = l.queuedBlocks) : NoNewCopies s (s.mapLedgers f) :=
  fun p b => by
    simp only [held, mapLedgers]
    cases s.connectedPeers p <;> simp [hf]

theorem noNewCopies_cancelBlock (s : Bitswap PeerId Cid) (c : Cid) :
    NoNewCopies s (s.cancelBlock c) :=
  (s.noNewCopies_mapLedgers fun _ => Ledger.queuedBlocks_cancelBlock c).setWantedBlocks _

theorem noNewCopies_sendWantList (s : Bitswap PeerId Cid) (q : PeerId) :
    NoNewCopies s (s.sendWantList q) := by
  unfold sendWantList
  split
  · exact s.noNewCopies_pushEvent fun _ _ => by simp [Action.copiesTo, Message.empty]
  · exact .refl s

theorem noNewCopies_onConnectionHandlerEvent (s : Bitswap PeerId Cid) (source : PeerId)
    (message : MessageWrapper Cid) : NoNewCopies s (s.onConnectionHandlerEvent source message) := by
  have hturn : ∀ (s s' : Bitswap PeerId Cid) (event : BitswapEvent PeerId Cid),
      NoNewCopies s s' → NoNewCopies s (s'.pushEvent (.generateEvent event)) :=
    fun _ s' _ h => h.trans (s'.noNewCopies_pushEvent fun _ _ => rfl)
  unfold onConnectionHandlerEvent
  split
  · exact .refl s
  · split
    · exact .refl s
    · dsimp only
      unfold receiveCancels receiveWants receiveBlocks
      exact ((NoNewCopies.foldl (fun s c =>
          hturn s _ _ (s.noNewCopies_modifyLedger source (f := (·.removeReceivedWant c))
            fun _ => rfl)) _ _).trans
        (NoNewCopies.foldl (fun s (w : Cid × Priority) =>
          hturn s _ _ (s.noNewCopies_modifyLedger source (f := (·.insertReceivedWant w.1 w.2))
            fun _ => rfl)) _ _)).trans
        (NoNewCopies.foldl (fun s (b : Block Cid) => hturn s _ _ (s.noNewCopies_cancelBlock b.cid))
          _ _)

theorem noNewCopies_connect (s : Bitswap PeerId Cid) (q : PeerId) :
    NoNewCopies s (s.connect q) := by
  unfold Bitswap.connect
  split
  · exact .refl s
  · exact { s with targetPeers := _ }.noNewCopies_pushEvent fun _ _ => rfl

/-- A new connection gives its peer an empty ledger, dropping what was queued for it. -/
theorem noNewCopies_connectionEstablished (s : Bitswap PeerId Cid) (q : PeerId) (n : Nat) :
    NoNewCopies s (s.onSwarmEvent (.connectionEstablished q n)) := by
  refine NoNewCopies.trans (fun p b => ?_) (noNewCopies_sendWantList _ q)
  by_cases hp : p = q
  · subst hp; simp [held, Ledger.new]
  · simp [held, hp]

/-- A closed connection removes its peer's ledger. -/
theorem noNewCopies_connectionClosed (s : Bitswap PeerId Cid) (q : PeerId) (n : Nat) :
    NoNewCopies s (s.onSwarmEvent (.connectionClosed q n)) := fun p b => by
  by_cases hp : p = q
  · subst hp; simp [held, onSwarmEvent]
  · simp [held, onSwarmEvent, hp]

theorem noNewCopies_drainDontHave (s : Bitswap PeerId Cid) : NoNewCopies s s.drainDontHave :=
  (NoNewCopies.refl s : NoNewCopies s { s with dontHaveRx := [] }).trans
    (NoNewCopies.foldl (fun s (x : PeerId × Cid) =>
      s.noNewCopies_modifyLedger x.1 (f := (·.removeReceivedWant x.2)) fun _ => rfl) _ _)

/-- `send_block` adds to the peer's ledger at most the one copy it is given. -/
theorem held_sendBlock (s : Bitswap PeerId Cid) (q : PeerId) (block : Block Cid) (p : PeerId)
    (b : Block Cid) :
    (s.sendBlock q block).held p b ≤ s.held p b + (decide (q = p ∧ block = b)).toNat := by
  unfold sendBlock modifyLedger
  split
  · next l hl =>
    by_cases hp : p = q
    · subst hp
      have := l.count_addBlock block b
      simp only [held, hl, Function.update_same, Option.map_some', Option.getD_some, true_and]
      omega
    · simp [held, hp, Ne.symm hp]
  · exact Nat.le_add_right _ _

/-- The `send_block` loop over a list adds at most the list's copies. -/
theorem held_foldl_sendBlock (p : PeerId) (b : Block Cid) :
    ∀ (xs : List (PeerId × Block Cid)) (s : Bitswap PeerId Cid),
      (xs.foldl (fun s x => s.sendBlock x.1 x.2) s).held p b ≤ s.held p b + xs.count (p, b)
  | [], _ => le_refl _
  | x :: xs, s => by
    have h₁ := s.held_sendBlock x.1 x.2 p b
    have h₂ := held_foldl_sendBlock p b xs (s.sendBlock x.1 x.2)
    have hx : (decide (x.1 = p ∧ x.2 = b)).toNat = if x = (p, b) then 1 else 0 := by
      obtain ⟨q, block⟩ := x
      by_cases hq : q = p <;> by_cases hb : block = b <;> simp [hq, hb]
    rw [List.foldl_cons, List.count_cons]
    simp only [beq_iff_eq, hx] at h₁ ⊢
    omega

/-- Draining the ready-blocks channel moves its copies into the ledgers, dropping those for a peer
with no ledger and those whose CID is already queued. -/
theorem noNewCopies_drainReadyBlocks (s : Bitswap PeerId Cid) : NoNewCopies s s.drainReadyBlocks :=
  fun p b => by
    have h := held_foldl_sendBlock p b s.readyBlocks { s with readyBlocks := [] }
    simp only [drainReadyBlocks]
    simp only [held, List.count_nil, Nat.add_zero] at h ⊢
    omega

/-- The ledger loop moves the copies of the ledger it reads into the message it returns. -/
theorem held_pollLedgers (s : Bitswap PeerId Cid) (order : List PeerId) (p : PeerId)
    (b : Block Cid) :
    (s.pollLedgers order).1.held p b + copiesSentTo p b (s.pollLedgers order).2.toList ≤
      s.held p b := by
  rcases s.pollLedgers_cases order with hpoll | ⟨q, l, message, l', hl, hsend, hpoll⟩ <;>
    rw [hpoll]
  · simp
  obtain ⟨hm, hl'⟩ := Ledger.send_blocks hsend
  by_cases hp : p = q
  · subst hp; simp [held, hl, hl', hm, Action.copiesTo]; omega
  · simp [held, hp, Action.copiesTo, Ne.symm hp]

end Bitswap

/-! ## Copies over runs -/

namespace World

/-- The copies of `b` a world has sent or holds for `p`: those of the actions `poll` has returned,
and those the engine holds. -/
def copies (w : World PeerId Cid) (p : PeerId) (b : Block Cid) : Nat :=
  copiesSentTo p b w.polled + w.engine.held p b

variable (w : World PeerId Cid) (p : PeerId) (b : Block Cid)

theorem copies_le_of_engine {w' : World PeerId Cid} {k : Nat} (hp : w'.polled = w.polled)
    (he : w'.engine.held p b ≤ w.engine.held p b + k) : w'.copies p b ≤ w.copies p b + k := by
  simp only [copies, hp]
  omega

/-- A poll returns the first queued action, or moves the copies of one ledger into the message it
returns, after draining the two channels. -/
theorem copies_step_poll (order : List PeerId) :
    (w.step (.poll order)).copies p b ≤ w.copies p b := by
  rcases w.step_poll order with ⟨e, es, he, hw⟩ | ⟨-, hw⟩ <;> rw [hw]
  · simp only [copies, Bitswap.held, he, copiesSentTo_append, copiesSentTo_cons, copiesSentTo_nil]
    omega
  · have hd := (w.engine.noNewCopies_drainDontHave.trans
      (Bitswap.noNewCopies_drainReadyBlocks _)) p b
    have hl := w.engine.drainDontHave.drainReadyBlocks.held_pollLedgers order p b
    simp only [copies, copiesSentTo_append]
    omega

/-- **One step.** Every input adds at most the one copy it hands over. -/
theorem copies_step (i : Input PeerId Cid) :
    (w.step i).copies p b ≤ w.copies p b + (i.submits p b).toNat := by
  have quiet : ∀ {w' : World PeerId Cid}, w'.polled = w.polled →
      w.engine.NoNewCopies w'.engine → w'.copies p b ≤ w.copies p b + (i.submits p b).toNat :=
    fun hp he => w.copies_le_of_engine p b hp ((he p b).trans (Nat.le_add_right _ _))
  cases i with
  | connect q => exact quiet rfl (w.engine.noNewCopies_connect q)
  | wantBlock c priority =>
    exact quiet rfl (Bitswap.NoNewCopies.setWantedBlocks
      (w.engine.noNewCopies_mapLedgers (f := (·.wantBlock c priority)) fun _ => rfl) _)
  | wantBlockFromPeers c priority peers =>
    exact quiet rfl ((Bitswap.NoNewCopies.foldl (fun s q =>
      s.noNewCopies_modifyLedger q (f := (·.wantBlock c priority)) fun _ => rfl) peers
        w.engine).setWantedBlocks _)
  | cancelBlock c => exact quiet rfl (w.engine.noNewCopies_cancelBlock c)
  | sendBlock q block =>
    exact w.copies_le_of_engine p b rfl (w.engine.held_sendBlock q block p b)
  | dontHave c =>
    exact quiet rfl (w.engine.noNewCopies_mapLedgers (f := (·.removeReceivedWant c)) fun _ => rfl)
  | dontHaveForPeer q c =>
    exact quiet rfl
      (w.engine.noNewCopies_modifyLedger q (f := (·.removeReceivedWant c)) fun _ => rfl)
  | connectionEstablished q =>
    exact quiet rfl (w.engine.noNewCopies_connectionEstablished q (w.connections q))
  | connectionClosed q =>
    exact quiet rfl (w.engine.noNewCopies_connectionClosed q (w.connections q - 1))
  | handlerEvent q message =>
    exact quiet rfl (w.engine.noNewCopies_onConnectionHandlerEvent q message)
  | sendReadyBlock q block =>
    refine w.copies_le_of_engine p b rfl ?_
    by_cases h : q = p ∧ block = b
    · obtain ⟨rfl, rfl⟩ := h; simp [step, Bitswap.held, Input.submits]; omega
    · have : (q, block) ≠ (p, b) := fun he => h (Prod.mk.inj he)
      simp [step, Bitswap.held, Input.submits, h, List.count_append, List.count_cons, this]
  | sendDontHave q c => exact quiet rfl (.refl _)
  | poll order => exact (w.copies_step_poll p b order).trans (Nat.le_add_right _ _)

variable {w}

/-- Along a run, the copies grow by at most the submissions. -/
theorem copies_run (inputs : List (Input PeerId Cid)) :
    (w.run inputs).copies p b ≤ w.copies p b + inputs.countP (·.submits p b) := by
  induction inputs generalizing w with
  | nil => exact Nat.le_add_right _ _
  | cons i inputs ih =>
    have h₁ := w.copies_step p b i
    have h₂ := ih (w := w.step i)
    have hi : (i.submits p b).toNat = if i.submits p b then 1 else 0 := by
      cases i.submits p b <;> rfl
    rw [List.countP_cons]
    simp only [run, List.foldl_cons] at h₂ ⊢
    omega

end World

/-- **Delivery.** Along every run from the default engine, with any interleaving of calls, channel
items, connection events, handler messages and polls, the copies of a block `b` that the messages
returned by `poll` carry to a peer `p`, together with those still queued for `p` in actions, in
`p`'s ledger or on the ready-blocks channel, are at most the times `b` was handed over for `p`,
by `send_block(p, b)` or as `(p, b)` on the ready-blocks channel. In particular no block is ever
sent to a peer it was not handed over for. Reference: `send_block` (`behaviour.rs:174-179`),
`poll` (`:362-397`), `Ledger::add_block` and `Ledger::send` of `crate::ledger`. -/
theorem run_delivery (p : PeerId) (b : Block Cid) (inputs : List (Input PeerId Cid)) :
    copiesSentTo p b (World.init.run inputs).polled + (World.init.run inputs).engine.held p b ≤
      inputs.countP (·.submits p b) ∧
    ((∀ i ∈ inputs, i.submits p b = false) →
      copiesSentTo p b (World.init.run inputs).polled = 0) := by
  have h := World.copies_run (w := World.init) p b inputs
  have h₀ : (World.init : World PeerId Cid).copies p b = 0 := rfl
  rw [h₀, Nat.zero_add] at h
  refine ⟨h, fun hi => ?_⟩
  rw [List.countP_eq_zero.2 fun i hm => by simp [hi i hm]] at h
  simp only [World.copies] at h
  omega

end RustIpfs
