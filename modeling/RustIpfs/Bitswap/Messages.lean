import RustIpfs.Bitswap.Counters
import RustIpfs.Bitswap.Wants

/-!
# Well-formed messages

A `NotifyHandler` message is built in two places: `send_want_list` puts the global want list in a
fresh message, and `poll` takes a ledger's `Ledger::send`, which drains its unsent wants, pending
cancels and queued blocks. A ledger is `Ledger.Consistent` when its cancels are distinct and none
of them is still wanted, its unsent wants are all in its sent want list, and its queued blocks have
distinct CIDs; `Ledger::new` is, every ledger operation keeps it (`Ledger.Consistent.wantBlock`,
...), and `send` then builds a well-formed message (`Ledger.Consistent.send`).

The engine keeps every ledger consistent and every queued message well formed
(`Bitswap.Consistent`), from its building blocks (`modifyLedger` for a `get_mut` on one ledger,
`mapLedgers` for a loop over them, `pushEvent` for `push_back` on the queue) up. So along every
run, no message the engine sends wants a CID twice, cancels a CID twice or cancels one it wants,
or carries two blocks of one CID (`run_messages`). Every want a ledger holds is moreover a global
want, so no message the ledger loop builds asks for a block the engine no longer wants
(`run_ledger_wants`).
-/

namespace RustIpfs

variable {PeerId Cid : Type} [DecidableEq PeerId] [DecidableEq Cid]

/-- A message wants each CID at most once, cancels each CID at most once and none it wants, and
carries at most one block of each CID. -/
structure Message.WellFormed (m : Message Cid) : Prop where
  want_nodup : (m.want.map Prod.fst).Nodup
  cancel_nodup : m.cancel.Nodup
  cancel_not_wanted : ∀ c ∈ m.cancel, c ∉ m.want.map Prod.fst
  blocks_nodup : (m.blocks.map (·.cid)).Nodup

/-- A ledger's pending cancels are distinct and none of them is in its sent want list, its unsent
wants are in its sent want list, and its queued blocks have distinct CIDs. -/
structure Ledger.Consistent (l : Ledger Cid) : Prop where
  cancels_nodup : l.sentCancels.Nodup
  cancel_not_wanted : ∀ c ∈ l.sentCancels, c ∉ l.sentWantList
  unsent_wanted : ∀ c ∈ l.unsentWants, c ∈ l.sentWantList
  queued_nodup : (l.queuedBlocks.map (·.cid)).Nodup

/-! ## Ledgers -/

namespace Ledger.Consistent

variable {l : Ledger Cid}

omit [DecidableEq Cid] in
theorem new : (Ledger.new : Ledger Cid).Consistent :=
  ⟨List.nodup_nil, fun _ h => (nomatch h), fun _ h => absurd h (AList.not_mem_empty _),
    List.nodup_nil⟩

/-- A want takes its CID out of the pending cancels. -/
theorem wantBlock (h : l.Consistent) (c : Cid) (priority : Priority) :
    (l.wantBlock c priority).Consistent where
  cancels_nodup := h.cancels_nodup.erase c
  cancel_not_wanted c' hc' := by
    have hc' : c' ≠ c ∧ c' ∈ l.sentCancels := h.cancels_nodup.mem_erase_iff.1 hc'
    simp only [Ledger.wantBlock, AList.mem_insert, not_or]
    exact ⟨hc'.1, h.cancel_not_wanted c' hc'.2⟩
  unsent_wanted c' hc' := by
    simp only [Ledger.wantBlock, AList.mem_insert] at hc' ⊢
    exact hc'.imp_right (h.unsent_wanted c')
  queued_nodup := h.queued_nodup

/-- A cancel takes its CID out of the sent want list and the unsent wants, and is queued once. -/
theorem cancelBlock (h : l.Consistent) (c : Cid) : (l.cancelBlock c).Consistent := by
  unfold Ledger.cancelBlock
  split_ifs with hc hcc
  · refine ⟨h.cancels_nodup, fun c' hc' hw => ?_, fun c' hc' => ?_, h.queued_nodup⟩
    · exact h.cancel_not_wanted c' hc' (AList.mem_erase.1 hw).2
    · obtain ⟨hne, hu⟩ := AList.mem_erase.1 hc'
      exact AList.mem_erase.2 ⟨hne, h.unsent_wanted c' hu⟩
  · refine ⟨?_, fun c' hc' hw => ?_, fun c' hc' => ?_, h.queued_nodup⟩
    · rw [← List.concat_eq_append]
      exact h.cancels_nodup.concat hcc
    · obtain ⟨hne, hw⟩ := AList.mem_erase.1 hw
      rcases List.mem_append.1 hc' with hc' | hc'
      · exact h.cancel_not_wanted c' hc' hw
      · exact hne (List.mem_singleton.1 hc')
    · obtain ⟨hne, hu⟩ := AList.mem_erase.1 hc'
      exact AList.mem_erase.2 ⟨hne, h.unsent_wanted c' hu⟩
  · exact h

/-- A block is queued only if no block of its CID is. -/
theorem addBlock (h : l.Consistent) (block : Block Cid) : (l.addBlock block).Consistent := by
  unfold Ledger.addBlock
  split
  · exact h
  · next hb =>
    refine { h with queued_nodup := ?_ }
    rw [List.map_append, List.map_singleton, ← List.concat_eq_append]
    exact h.queued_nodup.concat (by simpa using hb)

theorem removeReceivedWant (h : l.Consistent) (c : Cid) : (l.removeReceivedWant c).Consistent :=
  ⟨h.1, h.2, h.3, h.4⟩

theorem insertReceivedWant (h : l.Consistent) (c : Cid) (priority : Priority) :
    (l.insertReceivedWant c priority).Consistent :=
  ⟨h.1, h.2, h.3, h.4⟩

/-- `send` builds a well-formed message, and leaves a consistent ledger. -/
theorem send (h : l.Consistent) {m : Message Cid} {l' : Ledger Cid}
    (hs : l.send = some (m, l')) : m.WellFormed ∧ l'.Consistent := by
  unfold Ledger.send at hs
  split_ifs at hs
  cases hs
  have hkeys : ((l.unsentWants.entries.map fun e => (e.1, e.2)).map Prod.fst) =
      l.unsentWants.keys := by
    simp [AList.keys, List.keys, Function.comp_def]
  refine ⟨⟨?_, h.cancels_nodup, fun c hc hw => ?_, h.queued_nodup⟩,
    ⟨List.nodup_nil, fun _ h => (nomatch h), fun _ h => absurd h (AList.not_mem_empty _),
      List.nodup_nil⟩⟩
  · rw [hkeys]; exact l.unsentWants.keys_nodup
  · rw [hkeys, ← AList.mem_keys] at hw
    exact h.cancel_not_wanted c hc (h.unsent_wanted c hw)

/-- `send` wants only CIDs of the sent want list. -/
theorem want_mem_sentWantList (h : l.Consistent) {m : Message Cid} {l' : Ledger Cid}
    (hs : l.send = some (m, l')) : ∀ x ∈ m.want, x.1 ∈ l.sentWantList := by
  unfold Ledger.send at hs
  split_ifs at hs
  cases hs
  intro x hx
  obtain ⟨e, he, rfl⟩ := List.mem_map.1 hx
  exact h.unsent_wanted _ (AList.mem_keys.1 (List.mem_map_of_mem Sigma.fst he))

end Ledger.Consistent

omit [DecidableEq PeerId] [DecidableEq Cid] in
/-- The want list message of `send_want_list` is well formed. -/
theorem Bitswap.wellFormed_wantList (s : Bitswap PeerId Cid) :
    (⟨s.localWantlist, [], []⟩ : Message Cid).WellFormed :=
  ⟨by simpa [localWantlist, AList.keys, List.keys, Function.comp_def] using
      s.wantedBlocks.keys_nodup, List.nodup_nil, fun _ h => (nomatch h), List.nodup_nil⟩

/-! ## The engine -/

namespace Bitswap

/-- Every ledger of the engine is consistent and every message it has queued is well formed. -/
structure Consistent (s : Bitswap PeerId Cid) : Prop where
  ledgers : ∀ p l, s.connectedPeers p = some l → l.Consistent
  messages : ∀ p m, .notifyHandler p m ∈ s.events → m.WellFormed

variable {s : Bitswap PeerId Cid}

namespace Consistent

omit [DecidableEq PeerId] [DecidableEq Cid] in
theorem default : (Bitswap.default : Bitswap PeerId Cid).Consistent :=
  ⟨fun _ _ h => (nomatch h), fun _ _ h => (nomatch h)⟩

omit [DecidableEq PeerId] [DecidableEq Cid] in
/-- The global want list, the targets and the channels are no ledger and no message. -/
theorem of_eq {s' : Bitswap PeerId Cid} (h : s.Consistent)
    (hl : s'.connectedPeers = s.connectedPeers) (he : s'.events = s.events) : s'.Consistent :=
  ⟨hl ▸ h.1, he ▸ h.2⟩

omit [DecidableEq Cid] in
/-- Storing a consistent ledger, or none, for one peer keeps every ledger consistent. -/
theorem ledgers_update (h : s.Consistent) {q : PeerId} {o : Option (Ledger Cid)}
    (ho : ∀ l, o = some l → l.Consistent) :
    ∀ p l, Function.update s.connectedPeers q o p = some l → l.Consistent := by
  intro p l hp
  by_cases hpq : p = q
  · subst hpq
    exact ho l (by rwa [Function.update_same] at hp)
  · rw [Function.update_noteq hpq] at hp
    exact h.1 p l hp

omit [DecidableEq Cid] in
/-- Updating one ledger by a function that keeps ledgers consistent. -/
theorem modifyLedger (h : s.Consistent) (q : PeerId) {f : Ledger Cid → Ledger Cid}
    (hf : ∀ l, l.Consistent → (f l).Consistent) : (s.modifyLedger q f).Consistent := by
  unfold Bitswap.modifyLedger
  split
  · next l hl =>
    exact ⟨h.ledgers_update fun _ hl' => Option.some.inj hl' ▸ hf l (h.1 q l hl), h.2⟩
  · exact h

omit [DecidableEq PeerId] [DecidableEq Cid] in
/-- Updating every ledger by a function that keeps ledgers consistent. -/
theorem mapLedgers (h : s.Consistent) {f : Ledger Cid → Ledger Cid}
    (hf : ∀ l, l.Consistent → (f l).Consistent) : (s.mapLedgers f).Consistent := by
  refine ⟨fun p l hp => ?_, h.2⟩
  simp only [Bitswap.mapLedgers, Option.map_eq_some'] at hp
  obtain ⟨l₀, hl₀, rfl⟩ := hp
  exact hf l₀ (h.1 p l₀ hl₀)

omit [DecidableEq PeerId] [DecidableEq Cid] in
/-- Queueing an action that is no message, or a well-formed one. -/
theorem pushEvent (h : s.Consistent) {action : Action PeerId Cid}
    (ha : ∀ p m, action = .notifyHandler p m → m.WellFormed) :
    (s.pushEvent action).Consistent :=
  ⟨h.1, fun p m hm => (List.mem_append.1 hm).elim (h.2 p m)
    fun hm => ha p m (List.mem_singleton.1 hm).symm⟩

omit [DecidableEq PeerId] [DecidableEq Cid] in
theorem foldl {α : Type} {g : Bitswap PeerId Cid → α → Bitswap PeerId Cid}
    (hg : ∀ s x, s.Consistent → (g s x).Consistent) :
    ∀ (xs : List α) {s : Bitswap PeerId Cid}, s.Consistent → (xs.foldl g s).Consistent
  | [], _, h => h
  | x :: xs, s, h => foldl hg xs (hg s x h)

omit [DecidableEq PeerId] in
theorem cancelBlock (h : s.Consistent) (c : Cid) : (s.cancelBlock c).Consistent :=
  let h' := h.mapLedgers fun _ hl => hl.cancelBlock c
  ⟨h'.1, h'.2⟩

omit [DecidableEq PeerId] in
theorem sendWantList (h : s.Consistent) (q : PeerId) : (s.sendWantList q).Consistent := by
  rw [sendWantList_eq]
  split
  · exact h
  · exact h.pushEvent fun p m hm => by cases hm; exact s.wellFormed_wantList

omit [DecidableEq Cid] in
theorem connect (h : s.Consistent) (q : PeerId) : (s.connect q).Consistent := by
  unfold Bitswap.connect
  split
  · exact h
  · apply Consistent.pushEvent _ fun _ _ h => by cases h
    exact ⟨h.1, h.2⟩

/-- A new connection gives its peer a new ledger. -/
theorem connectionEstablished (h : s.Consistent) (q : PeerId) (n : Nat) :
    (s.onSwarmEvent (.connectionEstablished q n)).Consistent := by
  refine Consistent.sendWantList ?_ q
  exact ⟨h.ledgers_update fun _ hl => Option.some.inj hl ▸ Ledger.Consistent.new, h.2⟩

theorem connectionClosed (h : s.Consistent) (q : PeerId) (n : Nat) :
    (s.onSwarmEvent (.connectionClosed q n)).Consistent :=
  ⟨h.ledgers_update fun _ hl => (nomatch hl), h.2⟩

theorem onConnectionHandlerEvent (h : s.Consistent) (source : PeerId)
    (message : MessageWrapper Cid) : (s.onConnectionHandlerEvent source message).Consistent := by
  have hturn : ∀ (s : Bitswap PeerId Cid) (event : BitswapEvent PeerId Cid), s.Consistent →
      (s.pushEvent (.generateEvent event)).Consistent :=
    fun _ _ h => h.pushEvent fun _ _ h => by cases h
  unfold Bitswap.onConnectionHandlerEvent
  split
  · exact h
  · split
    · exact h
    · dsimp only
      unfold receiveCancels receiveWants receiveBlocks
      refine foldl (fun _ b hs => hturn _ _ (hs.cancelBlock b.cid)) _
        (foldl (fun _ w hs => hturn _ _ (hs.modifyLedger source fun _ hl =>
          hl.insertReceivedWant w.1 w.2)) _
        (foldl (fun _ c hs => hturn _ _ (hs.modifyLedger source fun _ hl =>
          hl.removeReceivedWant c)) _ h))

theorem drainDontHave (h : s.Consistent) : s.drainDontHave.Consistent :=
  foldl (fun _ x hs => hs.modifyLedger x.1 fun _ hl => hl.removeReceivedWant x.2) _
    (h.of_eq rfl rfl)

theorem drainReadyBlocks (h : s.Consistent) : s.drainReadyBlocks.Consistent :=
  foldl (fun _ x hs => hs.modifyLedger x.1 fun _ hl => hl.addBlock x.2) _ (h.of_eq rfl rfl)

/-- The ledger loop stores the ledger `send` leaves and returns the well-formed message it
builds. -/
theorem pollLedgers (h : s.Consistent) (order : List PeerId) :
    (s.pollLedgers order).1.Consistent ∧
      ∀ p m, .notifyHandler p m ∈ (s.pollLedgers order).2.toList → m.WellFormed := by
  rcases s.pollLedgers_cases order with hpoll | ⟨q, l, message, l', hl, hsend, hpoll⟩ <;>
    rw [hpoll]
  · exact ⟨h, fun _ _ hm => (nomatch hm)⟩
  obtain ⟨hm, hl'⟩ := (h.1 q l hl).send hsend
  refine ⟨⟨h.ledgers_update fun _ hl => Option.some.inj hl ▸ hl', h.2⟩, fun p m hpm => ?_⟩
  simp only [Option.toList_some, List.mem_singleton, Action.notifyHandler.injEq] at hpm
  exact hpm.2 ▸ hm

end Consistent

end Bitswap

/-! ## Runs -/

namespace World

/-- The engine is consistent and every message `poll` has returned is well formed. -/
structure Consistent (w : World PeerId Cid) : Prop where
  engine : w.engine.Consistent
  polled : ∀ p m, .notifyHandler p m ∈ w.polled → m.WellFormed

variable (w : World PeerId Cid)

/-- **One step.** Every input keeps the ledgers consistent and the messages well formed. -/
theorem Consistent.step (h : w.Consistent) (i : Input PeerId Cid) : (w.step i).Consistent := by
  have quiet : ∀ {w' : World PeerId Cid}, w'.polled = w.polled → w'.engine.Consistent →
      w'.Consistent :=
    fun hp he => ⟨he, hp ▸ h.2⟩
  have he := h.1
  cases i with
  | connect q => exact quiet rfl (he.connect q)
  | wantBlock c priority =>
    exact quiet rfl ((he.mapLedgers fun _ hl => hl.wantBlock c priority).of_eq rfl rfl)
  | wantBlockFromPeers c priority peers =>
    exact quiet rfl ((Bitswap.Consistent.foldl (fun _ q hs =>
      hs.modifyLedger q fun _ hl => hl.wantBlock c priority) peers he).of_eq rfl rfl)
  | cancelBlock c => exact quiet rfl (he.cancelBlock c)
  | sendBlock q block => exact quiet rfl (he.modifyLedger q fun _ hl => hl.addBlock block)
  | dontHave c => exact quiet rfl (he.mapLedgers fun _ hl => hl.removeReceivedWant c)
  | dontHaveForPeer q c =>
    exact quiet rfl (he.modifyLedger q fun _ hl => hl.removeReceivedWant c)
  | connectionEstablished q =>
    exact quiet rfl (he.connectionEstablished q (w.connections q))
  | connectionClosed q => exact quiet rfl (he.connectionClosed q (w.connections q - 1))
  | handlerEvent q message => exact quiet rfl (he.onConnectionHandlerEvent q message)
  | sendReadyBlock q block => exact quiet rfl (he.of_eq rfl rfl)
  | sendDontHave q c => exact quiet rfl (he.of_eq rfl rfl)
  | poll order =>
    rcases w.step_poll order with ⟨e, es, hev, hw⟩ | ⟨-, hw⟩ <;> rw [hw]
    · have hmem : ∀ a ∈ es, a ∈ w.engine.events :=
        fun a ha => hev ▸ List.mem_cons_of_mem _ ha
      refine ⟨⟨he.1, fun p m hm => he.2 p m (hmem _ hm)⟩, fun p m hpm => ?_⟩
      rcases List.mem_append.1 hpm with hpm | hpm
      · exact h.2 p m hpm
      · exact he.2 p m (hev ▸ List.mem_singleton.1 hpm ▸ List.mem_cons_self _ _)
    · obtain ⟨hs', hm⟩ := he.drainDontHave.drainReadyBlocks.pollLedgers order
      exact ⟨hs', fun p m hpm => (List.mem_append.1 hpm).elim (h.2 p m) (hm p m)⟩

variable {w}

theorem Consistent.run (h : w.Consistent) (inputs : List (Input PeerId Cid)) :
    (w.run inputs).Consistent := by
  induction inputs generalizing w with
  | nil => exact h
  | cons i inputs ih => exact ih (h.step w i)

end World

/-- **Well-formed messages.** Along every run of the engine from its default state, with any
interleaving of inputs, every ledger is consistent and every `NotifyHandler` message the engine
has queued or `poll` has returned wants each CID at most once, cancels each CID at most once and
none it wants, and carries at most one block of each CID. Reference: `send_want_list`
(`behaviour.rs:182-198`), `want_block`, `want_block_from_peers`, `cancel_block` (`:203-247`),
`on_swarm_event` (`:259-275`), `poll` (`:362-397`), and `Ledger` of `crate::ledger`. -/
theorem run_messages (inputs : List (Input PeerId Cid)) :
    (∀ p m, .notifyHandler p m ∈ (World.init.run inputs).actions → m.WellFormed) ∧
    ∀ p l, (World.init.run inputs).engine.connectedPeers p = some l → l.Consistent := by
  have h := (World.Consistent.mk Bitswap.Consistent.default fun _ _ hm => (nomatch hm) :
    (World.init : World PeerId Cid).Consistent).run inputs
  exact ⟨fun p m hm => (List.mem_append.1 hm).elim (h.2 p m) (h.1.2 p m), h.1.1⟩

/-! ## The wants a ledger sends

`cancel_block` takes a CID out of the global want list and out of every ledger, and a ledger
records a want only through `want_block` or `want_block_from_peers`, which put it in the global want
list too. So on every run each want a ledger holds is a global want (`Bitswap.SentWanted`), and a
message the ledger loop of `poll` builds wants only global wants. The want-list message a connection
queues is another matter: `cancel_block` leaves the queued actions alone. -/

/-- A ledger whose sent wants lie in `W` keeps them there when it records a want of `W`. -/
theorem Ledger.sentWantList_wantBlock_subset {W : WantList Cid} {l : Ledger Cid} {c : Cid}
    (priority : Priority) (hc : c ∈ W) (hl : ∀ c' ∈ l.sentWantList, c' ∈ W) :
    ∀ c' ∈ (l.wantBlock c priority).sentWantList, c' ∈ W := fun c' hc' =>
  ((AList.mem_insert _).1 hc').elim (· ▸ hc) (hl c')

/-- A cancelled want leaves the sent want list. -/
theorem Ledger.mem_sentWantList_cancelBlock {l : Ledger Cid} {c c' : Cid}
    (h : c' ∈ (l.cancelBlock c).sentWantList) : c' ≠ c ∧ c' ∈ l.sentWantList := by
  rw [← AList.lookup_isSome, Ledger.lookup_sentWantList_cancelBlock] at h
  split_ifs at h with hc
  · simp at h
  · exact ⟨hc, AList.lookup_isSome.1 h⟩

namespace Bitswap

/-- The CIDs of every ledger's sent want list satisfy `wanted`. -/
def SentWithin (s : Bitswap PeerId Cid) (wanted : Cid → Prop) : Prop :=
  ∀ p l, s.connectedPeers p = some l → ∀ c ∈ l.sentWantList, wanted c

/-- Every want a ledger has sent is a global want. -/
def SentWanted (s : Bitswap PeerId Cid) : Prop := s.SentWithin (· ∈ s.wantedBlocks)

variable {s s' : Bitswap PeerId Cid} {wanted : Cid → Prop}

omit [DecidableEq PeerId] [DecidableEq Cid] in
theorem SentWithin.of_sentFrame (h : s.SentWithin wanted) (hf : SentFrame s s') :
    s'.SentWithin wanted := by
  intro p l' hl' c hc
  obtain ⟨l, hl, he⟩ := hf.ledger p l' hl'
  exact h p l hl c (he ▸ hc)

omit [DecidableEq Cid] in
/-- Updating one ledger by a function that keeps its sent wants within `wanted`. -/
theorem SentWithin.modifyLedger (h : s.SentWithin wanted) (q : PeerId)
    {f : Ledger Cid → Ledger Cid}
    (hf : ∀ l, (∀ c ∈ l.sentWantList, wanted c) → ∀ c ∈ (f l).sentWantList, wanted c) :
    (s.modifyLedger q f).SentWithin wanted := by
  unfold Bitswap.modifyLedger
  split
  · next l hl =>
    intro p l' hp
    by_cases hpq : p = q
    · subst hpq
      simp only [Function.update_same, Option.some.injEq] at hp
      exact hp ▸ hf l (h p l hl)
    · simp only [Function.update_noteq hpq] at hp
      exact h p l' hp
  · exact h

omit [DecidableEq PeerId] [DecidableEq Cid] in
/-- Updating every ledger by a function that takes sent wants within `wanted` to sent wants within
`wanted'`. -/
theorem SentWithin.mapLedgers {wanted' : Cid → Prop} (h : s.SentWithin wanted)
    {f : Ledger Cid → Ledger Cid}
    (hf : ∀ l, (∀ c ∈ l.sentWantList, wanted c) → ∀ c ∈ (f l).sentWantList, wanted' c) :
    (s.mapLedgers f).SentWithin wanted' := by
  intro p l' hp
  obtain ⟨l, hl, rfl⟩ := Option.map_eq_some'.1 hp
  exact hf l (h p l hl)

namespace SentWanted

omit [DecidableEq PeerId] [DecidableEq Cid] in
theorem of_sentFrame (h : s.SentWanted) (hf : SentFrame s s') : s'.SentWanted := by
  unfold SentWanted
  rw [hf.wantedBlocks_eq]
  exact SentWithin.of_sentFrame h hf

omit [DecidableEq PeerId] in
/-- `want_block` records the want in every ledger and in the global want list. -/
theorem wantBlock (h : s.SentWanted) (c : Cid) (priority : Priority) :
    (s.wantBlock c priority).SentWanted := by
  have hw : c ∈ s.wantedBlocks.insert c priority := (AList.mem_insert _).2 (.inl rfl)
  have : (s.mapLedgers (·.wantBlock c priority)).SentWithin
      (· ∈ s.wantedBlocks.insert c priority) :=
    SentWithin.mapLedgers h fun _ hl => Ledger.sentWantList_wantBlock_subset priority hw
      fun c' hc' => (AList.mem_insert _).2 (.inr (hl c' hc'))
  exact this

/-- `want_block_from_peers` records the want in some ledgers and in the global want list. -/
theorem wantBlockFromPeers (h : s.SentWanted) (c : Cid) (priority : Priority)
    (peers : List PeerId) : (s.wantBlockFromPeers c priority peers).SentWanted := by
  have hw : c ∈ s.wantedBlocks.insert c priority := (AList.mem_insert _).2 (.inl rfl)
  have : (peers.foldl (fun s peer => s.modifyLedger peer (·.wantBlock c priority)) s).SentWithin
      (· ∈ s.wantedBlocks.insert c priority) :=
    List.foldlRecOn (motive := (SentWithin · (· ∈ s.wantedBlocks.insert c priority))) peers _ s
      (fun p l hl c' hc' => (AList.mem_insert _).2 (.inr (h p l hl c' hc')))
      fun _ hs q _ => hs.modifyLedger q fun _ => Ledger.sentWantList_wantBlock_subset priority hw
  exact this

omit [DecidableEq PeerId] in
/-- `cancel_block` takes the want out of every ledger and out of the global want list. -/
theorem cancelBlock (h : s.SentWanted) (c : Cid) : (s.cancelBlock c).SentWanted := by
  have : (s.mapLedgers (·.cancelBlock c)).SentWithin (· ∈ s.wantedBlocks.erase c) :=
    SentWithin.mapLedgers h fun _ hl c' hc' =>
      let ⟨hne, hc'⟩ := Ledger.mem_sentWantList_cancelBlock hc'
      AList.mem_erase.2 ⟨hne, hl c' hc'⟩
  exact this

/-- A new connection gives its peer a ledger with no sent want. -/
theorem connectionEstablished (h : s.SentWanted) (q : PeerId) (n : Nat) :
    (s.onSwarmEvent (.connectionEstablished q n)).SentWanted := by
  refine of_sentFrame ?_ (sentFrame_sendWantList _ q)
  intro p l hp c hc
  by_cases hpq : p = q
  · subst hpq
    simp only [Function.update_same, Option.some.injEq] at hp
    exact absurd (hp ▸ hc) (AList.not_mem_empty c)
  · simp only [Function.update_noteq hpq] at hp
    exact h p l hp c hc

/-- A received message changes sent wants only through the `cancel_block` of each of its blocks. -/
theorem onConnectionHandlerEvent (h : s.SentWanted) (source : PeerId)
    (message : MessageWrapper Cid) : (s.onConnectionHandlerEvent source message).SentWanted := by
  unfold Bitswap.onConnectionHandlerEvent
  split
  · exact h
  · split
    · exact h
    · dsimp only
      unfold receiveBlocks
      refine List.foldlRecOn (motive := SentWanted) _ _ _ ?_
        fun _ hs b _ => of_sentFrame (hs.cancelBlock b.cid) (sentFrame_pushEvent _ _)
      exact of_sentFrame (of_sentFrame h (sentFrame_receiveCancels _ _ _))
        (sentFrame_receiveWants _ _ _ _)

/-- The message the ledger loop returns wants only global wants. -/
theorem pollLedgers (h : s.SentWanted) (hc : s.Consistent) (order : List PeerId) {p : PeerId}
    {m : Message Cid} (hm : (s.pollLedgers order).2 = some (.notifyHandler p m)) :
    ∀ x ∈ m.want, x.1 ∈ s.wantedBlocks := by
  rcases s.pollLedgers_cases order with hpoll | ⟨q, l, message, l', hl, hsend, hpoll⟩ <;>
    rw [hpoll] at hm
  · cases hm
  · obtain ⟨rfl, rfl⟩ := Action.notifyHandler.inj (Option.some.inj hm)
    exact fun x hx => h q l hl x.1 ((hc.1 q l hl).want_mem_sentWantList hsend x hx)

/-- A poll with no queued action returns, if anything, a message of the ledger loop after the two
drains, which leave the global want list alone. -/
theorem poll (h : s.SentWanted) (hc : s.Consistent) (order : List PeerId) (he : s.events = [])
    {p : PeerId} {m : Message Cid} (hm : (s.poll order).2 = .ready (.notifyHandler p m)) :
    ∀ x ∈ m.want, x.1 ∈ s.wantedBlocks := by
  have hd := (sentFrame_drainDontHave s).trans (sentFrame_drainReadyBlocks _)
  simp only [Bitswap.poll, he] at hm
  rcases hl : s.drainDontHave.drainReadyBlocks.pollLedgers order with ⟨s', _ | a⟩ <;>
    rw [hl] at hm
  · cases hm
  · cases hm
    rw [← hd.wantedBlocks_eq]
    exact (of_sentFrame h hd).pollLedgers hc.drainDontHave.drainReadyBlocks order (by rw [hl])

end SentWanted

end Bitswap

namespace World

/-- Every input keeps each sent want a global want. -/
theorem sentWanted_step (w : World PeerId Cid) (h : w.engine.SentWanted) (i : Input PeerId Cid) :
    (w.step i).engine.SentWanted := by
  have frame : ∀ {s' : Bitswap PeerId Cid}, Bitswap.SentFrame w.engine s' → s'.SentWanted :=
    fun hf => Bitswap.SentWanted.of_sentFrame h hf
  cases i with
  | connect q => exact frame (Bitswap.sentFrame_connect _ q)
  | wantBlock c priority => exact h.wantBlock c priority
  | wantBlockFromPeers c priority peers => exact h.wantBlockFromPeers c priority peers
  | cancelBlock c => exact h.cancelBlock c
  | sendBlock q block => exact frame (Bitswap.sentFrame_sendBlock _ q block)
  | dontHave c => exact frame (Bitswap.sentFrame_mapLedgers _ fun _ => rfl)
  | dontHaveForPeer q c => exact frame (Bitswap.sentFrame_dontHaveForPeer _ q c)
  | connectionEstablished q => exact h.connectionEstablished q (w.connections q)
  | connectionClosed q =>
    exact frame (Bitswap.sentFrame_connectionClosed _ q (w.connections q - 1))
  | handlerEvent q message => exact h.onConnectionHandlerEvent q message
  | sendReadyBlock q block => exact frame ⟨rfl, fun _ l hl => ⟨l, hl, rfl⟩⟩
  | sendDontHave q c => exact frame ⟨rfl, fun _ l hl => ⟨l, hl, rfl⟩⟩
  | poll order => rw [engine_step_poll]; exact frame (Bitswap.sentFrame_poll _ order)

theorem sentWanted_run : ∀ (inputs : List (Input PeerId Cid)) {w : World PeerId Cid},
    w.engine.SentWanted → (w.run inputs).engine.SentWanted
  | [], _, h => h
  | i :: inputs, w, h => sentWanted_run inputs (w.sentWanted_step h i)

end World

/-- **No stale want from a ledger.** Along every run of the engine from its default state, with any
interleaving of inputs, `want_block_from_peers` included, every CID a ledger holds in its sent want
list is in the global want list, and when `poll`, with no action queued, returns a message built by
a ledger, every CID that message wants is in the global want list at that moment: no ledger asks a
peer for a block that `cancel_block`, or a received block, has taken out of the global want list.
Reference: `want_block`, `want_block_from_peers`, `cancel_block` (`behaviour.rs:203-247`),
`on_swarm_event` (`:259-275`), `on_connection_handler_event` (`:297-360`), `poll` (`:362-397`). -/
theorem run_ledger_wants (inputs : List (Input PeerId Cid)) :
    (∀ p l, (World.init.run inputs).engine.connectedPeers p = some l →
      ∀ c ∈ l.sentWantList, c ∈ (World.init.run inputs).engine.wantedBlocks) ∧
    ∀ order p m, (World.init.run inputs).engine.events = [] →
      ((World.init.run inputs).engine.poll order).2 = .ready (.notifyHandler p m) →
      ∀ x ∈ m.want, x.1 ∈ (World.init.run inputs).engine.wantedBlocks := by
  have h : (World.init.run inputs).engine.SentWanted :=
    World.sentWanted_run inputs fun _ _ h => (nomatch h)
  have hc := (World.Consistent.mk Bitswap.Consistent.default fun _ _ hm => (nomatch hm) :
    (World.init : World PeerId Cid).Consistent).run inputs
  exact ⟨h, fun order _ _ he hm => h.poll hc.1 order he hm⟩

end RustIpfs
