import RustIpfs.Bitswap.World

/-!
# The global want list against the ledgers

The spec asks that every global want be in every ledger's sent want list with the same priority.
A ledger made by a connection starts empty while the global want list need not be: the wants of
that moment go out in the one message `send_want_list` queues, and the ledger never records them
(`wantedBeforeConnect`). What holds on every run without `want_block_from_peers`
(`reachable_wantsMirrored`) is the invariant `Mirrored`: a ledger's sent wants are global wants,
and a global want is in the ledger or was in the list announced when the ledger was made.

Every step either keeps the global want list and the sent wants of the ledgers it keeps
(`SentFrame`), or is `want_block`, `cancel_block`, or a connection; the invariant is proved once for
each of these and then for each input.
-/

namespace RustIpfs

variable {PeerId Cid : Type}

namespace Bitswap

variable {s s₁ s₂ s₃ : Bitswap PeerId Cid}

/-! ## Steps that leave the wants alone -/

/-- `s'` has the global want list of `s`, and each of its ledgers is one of `s` with the same sent
wants. -/
structure SentFrame (s s' : Bitswap PeerId Cid) : Prop where
  wantedBlocks_eq : s'.wantedBlocks = s.wantedBlocks
  ledger : ∀ p l', s'.connectedPeers p = some l' →
    ∃ l, s.connectedPeers p = some l ∧ l'.sentWantList = l.sentWantList

theorem SentFrame.refl (s : Bitswap PeerId Cid) : SentFrame s s :=
  ⟨rfl, fun _ l h => ⟨l, h, rfl⟩⟩

theorem SentFrame.trans (h₁ : SentFrame s₁ s₂) (h₂ : SentFrame s₂ s₃) :
    SentFrame s₁ s₃ :=
  ⟨h₂.wantedBlocks_eq.trans h₁.wantedBlocks_eq, fun p l₃ h => by
    obtain ⟨l₂, h₂', e₂⟩ := h₂.ledger p l₃ h
    obtain ⟨l₁, h₁', e₁⟩ := h₁.ledger p l₂ h₂'
    exact ⟨l₁, h₁', e₂.trans e₁⟩⟩

/-- A loop whose every iteration leaves the wants alone leaves them alone. -/
theorem SentFrame.foldl {α : Type} {g : Bitswap PeerId Cid → α → Bitswap PeerId Cid}
    (hg : ∀ s a, SentFrame s (g s a)) (h₀ : SentFrame s s₁) (l : List α) :
    SentFrame s (l.foldl g s₁) :=
  List.foldlRecOn (motive := SentFrame s) l g s₁ h₀ fun s' h a _ => h.trans (hg s' a)

theorem sentFrame_pushEvent (s : Bitswap PeerId Cid) (action : Action PeerId Cid) :
    SentFrame s (s.pushEvent action) :=
  ⟨rfl, fun _ l h => ⟨l, h, rfl⟩⟩

theorem sentFrame_mapLedgers (s : Bitswap PeerId Cid) {f : Ledger Cid → Ledger Cid}
    (hf : ∀ l, (f l).sentWantList = l.sentWantList) : SentFrame s (s.mapLedgers f) := by
  refine ⟨rfl, fun p l' h => ?_⟩
  obtain ⟨l, hl, rfl⟩ := Option.map_eq_some'.1 h
  exact ⟨l, hl, hf l⟩

variable [DecidableEq PeerId]

/-- Replacing one ledger by one with the same sent wants. -/
theorem SentFrame.of_update {s' : Bitswap PeerId Cid} {p : PeerId} {l l' : Ledger Cid}
    (hw : s'.wantedBlocks = s.wantedBlocks)
    (hc : s'.connectedPeers = Function.update s.connectedPeers p (some l'))
    (hl : s.connectedPeers p = some l) (he : l'.sentWantList = l.sentWantList) :
    SentFrame s s' := by
  refine ⟨hw, fun q l'' h => ?_⟩
  rw [hc] at h
  by_cases hq : q = p
  · subst hq
    rw [Function.update_same, Option.some.injEq] at h
    exact ⟨l, hl, h ▸ he⟩
  · rw [Function.update_noteq hq] at h
    exact ⟨l'', h, rfl⟩

theorem sentFrame_modifyLedger (s : Bitswap PeerId Cid) (p : PeerId) {f : Ledger Cid → Ledger Cid}
    (hf : ∀ l, (f l).sentWantList = l.sentWantList) : SentFrame s (s.modifyLedger p f) := by
  unfold modifyLedger
  split
  · exact .of_update rfl rfl ‹_› (hf _)
  · exact .refl s

theorem sentFrame_connect (s : Bitswap PeerId Cid) (p : PeerId) : SentFrame s (s.connect p) := by
  unfold connect
  split
  · exact .refl s
  · exact ⟨rfl, fun _ l h => ⟨l, h, rfl⟩⟩

variable [DecidableEq Cid]

omit [DecidableEq PeerId] in
theorem sentFrame_sendWantList (s : Bitswap PeerId Cid) (p : PeerId) :
    SentFrame s (s.sendWantList p) := by
  unfold sendWantList
  split
  · exact sentFrame_pushEvent s _
  · exact .refl s

theorem sentFrame_connectionClosed (s : Bitswap PeerId Cid) (p : PeerId) (n : Nat) :
    SentFrame s (s.onSwarmEvent (.connectionClosed p n)) := by
  refine ⟨rfl, fun q l h => ?_⟩
  by_cases hq : q = p
  · subst hq; simp [onSwarmEvent] at h
  · exact ⟨l, by simpa [onSwarmEvent, hq] using h, rfl⟩

theorem sentFrame_sendBlock (s : Bitswap PeerId Cid) (p : PeerId) (block : Block Cid) :
    SentFrame s (s.sendBlock p block) :=
  sentFrame_modifyLedger s p fun _ => Ledger.sentWantList_addBlock _

theorem sentFrame_dontHaveForPeer (s : Bitswap PeerId Cid) (p : PeerId) (c : Cid) :
    SentFrame s (s.dontHaveForPeer p c) :=
  sentFrame_modifyLedger s p fun _ => rfl

theorem sentFrame_receiveCancels (source : PeerId) (s : Bitswap PeerId Cid) (cancels : List Cid) :
    SentFrame s (receiveCancels source s cancels) := by
  refine .foldl (fun s cid => .trans ?_ (sentFrame_pushEvent _ _)) (.refl s) cancels
  exact sentFrame_modifyLedger s _ fun _ => rfl

theorem sentFrame_receiveWants (source : PeerId) (current : List (Cid × Priority))
    (s : Bitswap PeerId Cid) (wants : List (Cid × Priority)) :
    SentFrame s (receiveWants source current s wants) := by
  refine .foldl (fun s w => .trans ?_ (sentFrame_pushEvent _ _)) (.refl s) _
  exact sentFrame_modifyLedger s _ fun _ => rfl

theorem sentFrame_pollLedgers (s : Bitswap PeerId Cid) :
    ∀ order : List PeerId, SentFrame s (s.pollLedgers order).1
  | [] => .refl s
  | p :: order => by
    unfold pollLedgers
    split
    · exact sentFrame_pollLedgers s order
    · split
      · exact sentFrame_pollLedgers s order
      · exact .of_update rfl rfl ‹_› (Ledger.sentWantList_send ‹_›)

theorem sentFrame_drainDontHave (s : Bitswap PeerId Cid) : SentFrame s s.drainDontHave := by
  unfold drainDontHave
  refine .foldl (fun s item => sentFrame_dontHaveForPeer s item.1 item.2) ?_ s.dontHaveRx
  exact ⟨rfl, fun _ l h => ⟨l, h, rfl⟩⟩

theorem sentFrame_drainReadyBlocks (s : Bitswap PeerId Cid) : SentFrame s s.drainReadyBlocks := by
  unfold drainReadyBlocks
  refine .foldl (fun s item => sentFrame_sendBlock s item.1 item.2) ?_ s.readyBlocks
  exact ⟨rfl, fun _ l h => ⟨l, h, rfl⟩⟩

/-- A poll sends, and drains the channels, but wants nothing new. -/
theorem sentFrame_poll (s : Bitswap PeerId Cid) (order : List PeerId) :
    SentFrame s (s.poll order).1 := by
  unfold poll
  split
  · exact ⟨rfl, fun _ l h => ⟨l, h, rfl⟩⟩
  · have hdrained := s.sentFrame_drainDontHave.trans s.drainDontHave.sentFrame_drainReadyBlocks
    have hpoll := sentFrame_pollLedgers s.drainDontHave.drainReadyBlocks order
    split <;> rename_i heq <;> rw [heq] at hpoll <;> exact hdrained.trans hpoll

/-! ## The invariant -/

/-- A ledger's sent wants are global wants, with their priority, and a global want is in every
ledger or, missing there, was in the want list announced to the peer when the ledger was made. -/
structure Mirrored (s : Bitswap PeerId Cid) (announced : PeerId → List (Cid × Priority)) :
    Prop where
  wanted_sent : ∀ p l, s.connectedPeers p = some l → ∀ c priority,
    s.wantedBlocks.lookup c = some priority →
      l.sentWantList.lookup c = some priority ∨
        l.sentWantList.lookup c = none ∧ (c, priority) ∈ announced p
  sent_wanted : ∀ p l, s.connectedPeers p = some l → ∀ c priority,
    l.sentWantList.lookup c = some priority → s.wantedBlocks.lookup c = some priority

variable {announced : PeerId → List (Cid × Priority)}

omit [DecidableEq PeerId] in
theorem Mirrored.frame (hm : Mirrored s₁ announced) (hf : SentFrame s₁ s₂) :
    Mirrored s₂ announced where
  wanted_sent p l' hl' c priority hc := by
    obtain ⟨l, hl, he⟩ := hf.ledger p l' hl'
    rw [he]
    exact hm.wanted_sent p l hl c priority (hf.wantedBlocks_eq ▸ hc)
  sent_wanted p l' hl' c priority hc := by
    obtain ⟨l, hl, he⟩ := hf.ledger p l' hl'
    rw [hf.wantedBlocks_eq]
    exact hm.sent_wanted p l hl c priority (he ▸ hc)

omit [DecidableEq PeerId] in
theorem Mirrored.wantBlock (hm : Mirrored s announced) (c : Cid) (priority : Priority) :
    Mirrored (s.wantBlock c priority) announced where
  wanted_sent p l' hl' c' priority' hc := by
    obtain ⟨l, hl, rfl⟩ := Option.map_eq_some'.1 hl'
    simp only [Bitswap.wantBlock] at hc
    by_cases h : c' = c
    · subst h
      rw [AList.lookup_insert] at hc
      simp [AList.lookup_insert, hc]
    · rw [AList.lookup_insert_ne h] at hc
      simpa [AList.lookup_insert_ne h] using hm.wanted_sent p l hl c' priority' hc
  sent_wanted p l' hl' c' priority' hc := by
    obtain ⟨l, hl, rfl⟩ := Option.map_eq_some'.1 hl'
    simp only [Bitswap.wantBlock]
    by_cases h : c' = c
    · subst h
      simpa [AList.lookup_insert] using hc
    · rw [Ledger.sentWantList_wantBlock, AList.lookup_insert_ne h] at hc
      rw [AList.lookup_insert_ne h]
      exact hm.sent_wanted p l hl c' priority' hc

omit [DecidableEq PeerId] in
theorem Mirrored.cancelBlock (hm : Mirrored s announced) (c : Cid) :
    Mirrored (s.cancelBlock c) announced where
  wanted_sent p l' hl' c' priority hc := by
    obtain ⟨l, hl, rfl⟩ := Option.map_eq_some'.1 hl'
    simp only [Bitswap.cancelBlock] at hc
    by_cases h : c' = c
    · subst h; rw [AList.lookup_erase] at hc; cases hc
    · rw [AList.lookup_erase_ne h] at hc
      rw [Ledger.lookup_sentWantList_cancelBlock, if_neg h]
      exact hm.wanted_sent p l hl c' priority hc
  sent_wanted p l' hl' c' priority hc := by
    obtain ⟨l, hl, rfl⟩ := Option.map_eq_some'.1 hl'
    rw [Ledger.lookup_sentWantList_cancelBlock] at hc
    split_ifs at hc with h
    simp only [Bitswap.cancelBlock]
    rw [AList.lookup_erase_ne h]
    exact hm.sent_wanted p l hl c' priority hc

/-- A connection gives the peer an empty ledger and announces the global want list to it. -/
theorem Mirrored.connectionEstablished (hm : Mirrored s announced) (p : PeerId) (n : Nat) :
    Mirrored (s.onSwarmEvent (.connectionEstablished p n))
      (Function.update announced p s.localWantlist) := by
  simp only [onSwarmEvent]
  refine Mirrored.frame ⟨fun q l hl c priority hc => ?wanted, fun q l hl c priority hc => ?sent⟩
    (sentFrame_sendWantList _ p) <;> rcases eq_or_ne q p with rfl | hq
  case wanted.inl =>
    simp only [Function.update_same, Option.some.injEq] at hl
    subst hl
    refine .inr ⟨AList.lookup_empty c, ?_⟩
    simp only [Function.update_same, localWantlist, List.mem_map]
    exact ⟨⟨c, priority⟩, AList.mem_lookup_iff.1 hc, rfl⟩
  case wanted.inr =>
    simp only [Function.update_noteq hq] at hl ⊢
    exact hm.wanted_sent q l hl c priority hc
  case sent.inl =>
    simp only [Function.update_same, Option.some.injEq] at hl
    simp [← hl] at hc
  case sent.inr =>
    simp only [Function.update_noteq hq] at hl
    exact hm.sent_wanted q l hl c priority hc

omit [DecidableEq PeerId] in
theorem Mirrored.receiveBlocks (hm : Mirrored s announced) (source : PeerId)
    (blocks : List (Block Cid)) : Mirrored (receiveBlocks source s blocks) announced :=
  List.foldlRecOn (motive := fun s => Mirrored s announced) blocks _ s hm
    fun _ h block _ => (h.cancelBlock block.cid).frame (sentFrame_pushEvent _ _)

theorem Mirrored.onConnectionHandlerEvent (hm : Mirrored s announced) (source : PeerId)
    (message : MessageWrapper Cid) :
    Mirrored (s.onConnectionHandlerEvent source message) announced := by
  unfold Bitswap.onConnectionHandlerEvent
  split
  · exact hm
  · split
    · exact hm
    · exact ((hm.frame (sentFrame_receiveCancels _ _ _)).frame
        (sentFrame_receiveWants _ _ _ _)).receiveBlocks _ _

end Bitswap

variable [DecidableEq PeerId] [DecidableEq Cid]

/-- Every input but `want_block_from_peers` keeps the invariant, with the announced lists. -/
theorem Bitswap.Mirrored.step {w : World PeerId Cid} (hm : w.engine.Mirrored w.announced)
    (i : Input PeerId Cid) (hi : i.callsWantBlockFromPeers = false) :
    (w.step i).engine.Mirrored (w.step i).announced := by
  cases i with
  | connect p => exact hm.frame (Bitswap.sentFrame_connect _ p)
  | wantBlock c priority => exact hm.wantBlock c priority
  | wantBlockFromPeers => cases hi
  | cancelBlock c => exact hm.cancelBlock c
  | sendBlock p block => exact hm.frame (Bitswap.sentFrame_sendBlock _ p block)
  | dontHave c => exact hm.frame (Bitswap.sentFrame_mapLedgers _ fun _ => rfl)
  | dontHaveForPeer p c => exact hm.frame (Bitswap.sentFrame_dontHaveForPeer _ p c)
  | connectionEstablished p => exact hm.connectionEstablished p (w.connections p)
  | connectionClosed p =>
    exact hm.frame (Bitswap.sentFrame_connectionClosed _ p (w.connections p - 1))
  | handlerEvent p message => exact hm.onConnectionHandlerEvent p message
  | sendReadyBlock | sendDontHave => exact hm.frame ⟨rfl, fun _ l h => ⟨l, h, rfl⟩⟩
  | poll order =>
    rw [World.engine_step_poll, World.announced_step_poll]
    exact hm.frame (Bitswap.sentFrame_poll _ order)

/-! ## Runs -/

/-- Runs without `want_block_from_peers` keep the invariant. -/
theorem Reachable.mirrored {w : World PeerId Cid}
    (hr : Reachable (fun i => i.callsWantBlockFromPeers = false) w) :
    w.engine.Mirrored w.announced := by
  induction hr with
  | init => exact ⟨fun _ _ h => (by cases h), fun _ _ h => (by cases h)⟩
  | step i _ _ hi ih => exact ih.step i hi

/-- **The global want list against the ledgers.** On every run without `want_block_from_peers`,
the ledger of a connected peer has sent each global want with its priority, or has no entry for it
and the want, with that priority, was in the list announced at the peer's latest connection; and
each want the ledger has sent is a global want with the same priority. The announced list is what
the connection sent: it queued one message with exactly the global want list, if that was not
empty. Reference: `want_block` (`behaviour.rs:203-208`), `cancel_block` (`:242-247`),
`on_swarm_event` (`:259-275`), `send_want_list` (`:182-198`). -/
theorem reachable_wantsMirrored {w : World PeerId Cid}
    (hr : Reachable (fun i => i.callsWantBlockFromPeers = false) w) :
    (∀ p l, w.engine.connectedPeers p = some l → ∀ c priority,
      w.engine.wantedBlocks.lookup c = some priority →
        l.sentWantList.lookup c = some priority ∨
          l.sentWantList.lookup c = none ∧ (c, priority) ∈ w.announced p) ∧
    (∀ p l, w.engine.connectedPeers p = some l → ∀ c priority,
      l.sentWantList.lookup c = some priority → w.engine.wantedBlocks.lookup c = some priority) ∧
    (∀ p, (w.step (.connectionEstablished p)).announced p = w.engine.localWantlist ∧
      (w.step (.connectionEstablished p)).engine.events = w.engine.events ++
        if w.engine.localWantlist = [] then []
        else [.notifyHandler p ⟨w.engine.localWantlist, [], []⟩]) := by
  exact ⟨hr.mirrored.wanted_sent, hr.mirrored.sent_wanted, fun p =>
    ⟨Function.update_same _ _ _, Bitswap.events_connectionEstablished _ p (w.connections p)⟩⟩

/-- `want_block(0, 5)` with no peer connected, then a connection of peer `0`. -/
def wantedBeforeConnect : World Nat Nat :=
  World.init.run [.wantBlock 0 5, .connectionEstablished 0]

theorem wantedBeforeConnect_reachable :
    Reachable (fun i : Input Nat Nat => i.callsWantBlockFromPeers = false) wantedBeforeConnect :=
  .step (.connectionEstablished 0) (.step (.wantBlock 0 5) .init trivial rfl) trivial rfl

theorem reachable_wantsMirrored_wantedBeforeConnect :
    Reachable (fun i : Input Nat Nat => i.callsWantBlockFromPeers = false) wantedBeforeConnect ∧
    (∀ p l, wantedBeforeConnect.engine.connectedPeers p = some l → ∀ c priority,
      wantedBeforeConnect.engine.wantedBlocks.lookup c = some priority →
        l.sentWantList.lookup c = some priority ∨
          l.sentWantList.lookup c = none ∧ (c, priority) ∈ wantedBeforeConnect.announced p) ∧
    (∀ p l, wantedBeforeConnect.engine.connectedPeers p = some l → ∀ c priority,
      l.sentWantList.lookup c = some priority →
        wantedBeforeConnect.engine.wantedBlocks.lookup c = some priority) ∧
    (∀ p, (wantedBeforeConnect.step (.connectionEstablished p)).announced p =
        wantedBeforeConnect.engine.localWantlist ∧
      (wantedBeforeConnect.step (.connectionEstablished p)).engine.events =
        wantedBeforeConnect.engine.events ++
          if wantedBeforeConnect.engine.localWantlist = [] then []
          else [.notifyHandler p ⟨wantedBeforeConnect.engine.localWantlist, [], []⟩]) :=
  ⟨wantedBeforeConnect_reachable, reachable_wantsMirrored wantedBeforeConnect_reachable⟩

/-- **A want older than the connection is not in the ledger.** After `want_block(0, 5)` and then
a connection of peer `0`, the peer's ledger has no entry for CID `0` while the global want list
maps it to `5`; the want went out in the message the connection queued. -/
theorem wanted_before_connect_not_in_ledger :
    Reachable (fun i : Input Nat Nat => i.callsWantBlockFromPeers = false) wantedBeforeConnect ∧
    wantedBeforeConnect.engine.wantedBlocks.lookup 0 = some 5 ∧
    (∃ l, wantedBeforeConnect.engine.connectedPeers 0 = some l ∧ l.sentWantList.lookup 0 = none) ∧
    wantedBeforeConnect.engine.events = [.notifyHandler 0 ⟨[(0, 5)], [], []⟩] :=
  ⟨wantedBeforeConnect_reachable, rfl, ⟨_, rfl, rfl⟩, rfl⟩

end RustIpfs
