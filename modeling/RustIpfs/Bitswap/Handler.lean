import RustIpfs.Bitswap.Behaviour

/-!
# Received messages

`on_connection_handler_event` runs three loops over a received message, each pushing one event
per item: the cancels and the wants update the sender's `received_want_list`, and each block goes
through `cancel_block`. Each loop is put in closed form once (`receiveCancels_eq`,
`receiveWants_eq`, `receiveBlocks_eq`), from one lemma for a loop that updates one ledger and
queues an event per item (`foldl_modifyLedger_pushEvent`); the handler is their composition
(`onConnectionHandlerEvent_spec`).
-/

namespace RustIpfs

variable {PeerId Cid : Type} [DecidableEq PeerId] [DecidableEq Cid]

namespace Ledger

omit [DecidableEq Cid] in
/-- A loop that only rewrites the received want list rewrites it by the same loop. -/
theorem foldl_receivedWantList {α : Type} (g : WantList Cid → α → WantList Cid) :
    ∀ (xs : List α) (l : Ledger Cid),
      xs.foldl (fun l x => { l with receivedWantList := g l.receivedWantList x }) l =
        { l with receivedWantList := xs.foldl g l.receivedWantList }
  | [], _ => rfl
  | _ :: xs, _ => foldl_receivedWantList g xs _

@[simp] theorem receivedWantList_cancelBlock (l : Ledger Cid) (c : Cid) :
    (l.cancelBlock c).receivedWantList = l.receivedWantList := by
  unfold cancelBlock; split <;> rfl

@[simp] theorem receivedWantList_foldl_cancelBlock :
    ∀ (blocks : List (Block Cid)) (l : Ledger Cid),
      (blocks.foldl (fun l b => l.cancelBlock b.cid) l).receivedWantList = l.receivedWantList
  | [], _ => rfl
  | b :: blocks, l => by
    rw [List.foldl_cons, receivedWantList_foldl_cancelBlock blocks, receivedWantList_cancelBlock]

end Ledger

namespace Bitswap

omit [DecidableEq Cid] in
/-- A loop that, for each item, updates the ledger of `source` and queues an event leaves that
ledger updated by the same loop and the events appended in order. -/
theorem foldl_modifyLedger_pushEvent {α : Type} (source : PeerId)
    (f : Ledger Cid → α → Ledger Cid) (event : α → Action PeerId Cid) :
    ∀ (xs : List α) (s : Bitswap PeerId Cid) {l : Ledger Cid}, s.connectedPeers source = some l →
      xs.foldl (fun s x => (s.modifyLedger source (f · x)).pushEvent (event x)) s =
        { s with
          events := s.events ++ xs.map event
          connectedPeers := Function.update s.connectedPeers source (some (xs.foldl f l)) }
  | [], s, l, h => by
    simp only [List.foldl_nil, List.map_nil, List.append_nil, ← h, Function.update_eq_self]
  | x :: xs, s, l, h => by
    rw [List.foldl_cons, foldl_modifyLedger_pushEvent source f event xs _ (l := f l x)
      (by simp [modifyLedger, pushEvent, h])]
    simp [modifyLedger, pushEvent, h]

/-- The cancel loop: the cancelled CIDs leave the sender's received want list, one
`ReceivedCancel` each. -/
theorem receiveCancels_eq (source : PeerId) (s : Bitswap PeerId Cid) {l : Ledger Cid}
    (h : s.connectedPeers source = some l) (cancels : List Cid) :
    receiveCancels source s cancels =
      { s with
        events := s.events ++ cancels.map fun c => .generateEvent (.receivedCancel source c)
        connectedPeers := Function.update s.connectedPeers source (some { l with
          receivedWantList := cancels.foldl (fun wl c => wl.erase c) l.receivedWantList }) } := by
  have := foldl_modifyLedger_pushEvent source
    (fun l c => { l with receivedWantList := l.receivedWantList.erase c })
    (fun c => .generateEvent (.receivedCancel source c)) cancels s h
  rw [Ledger.foldl_receivedWantList (fun wl c => wl.erase c)] at this
  exact this

/-- The want loop: the wants whose CID is not in `current` enter the sender's received want list,
one `ReceivedWant` each. -/
theorem receiveWants_eq (source : PeerId) (current : List (Cid × Priority))
    (s : Bitswap PeerId Cid) {l : Ledger Cid} (h : s.connectedPeers source = some l)
    (wants : List (Cid × Priority)) :
    receiveWants source current s wants =
      let fresh := wants.filter fun w => !(current.map Prod.fst).any (· == w.1)
      { s with
        events := s.events ++ fresh.map fun w => .generateEvent (.receivedWant source w.1 w.2)
        connectedPeers := Function.update s.connectedPeers source (some { l with
          receivedWantList := fresh.foldl (fun wl w => wl.insert w.1 w.2) l.receivedWantList }) } := by
  have := foldl_modifyLedger_pushEvent source
    (fun l w => { l with receivedWantList := l.receivedWantList.insert w.1 w.2 })
    (fun w => .generateEvent (.receivedWant source w.1 w.2))
    (wants.filter fun w => !(current.map Prod.fst).any (· == w.1)) s h
  rw [Ledger.foldl_receivedWantList fun (wl : WantList Cid) (w : Cid × Priority) =>
    wl.insert w.1 w.2] at this
  exact this

omit [DecidableEq PeerId] in
/-- The block loop: each block's CID leaves the global want list and goes through every ledger's
`cancel_block`, one `ReceivedBlock` each. -/
theorem receiveBlocks_eq (source : PeerId) :
    ∀ (s : Bitswap PeerId Cid) (blocks : List (Block Cid)),
      receiveBlocks source s blocks =
        { s with
          events := s.events ++ blocks.map fun b => .generateEvent (.receivedBlock source b)
          wantedBlocks := blocks.foldl (fun wl b => wl.erase b.cid) s.wantedBlocks
          connectedPeers := fun q =>
            (s.connectedPeers q).map fun l => blocks.foldl (fun l b => l.cancelBlock b.cid) l }
  | s, [] => by simp [receiveBlocks]
  | s, b :: blocks => by
    rw [receiveBlocks, List.foldl_cons, ← receiveBlocks, receiveBlocks_eq]
    simp [cancelBlock, mapLedgers, pushEvent, Option.map_map, Function.comp_def]

omit [DecidableEq PeerId] in
/-- The want filter of the handler tests membership in the global want list. -/
theorem any_localWantlist (s : Bitswap PeerId Cid) (c : Cid) :
    (s.localWantlist.map Prod.fst).any (· == c) = decide (c ∈ s.wantedBlocks) := by
  rw [Bool.eq_iff_iff, decide_eq_true_iff, AList.mem_keys]
  simp [localWantlist, AList.keys, List.keys, List.any_eq_true]

/-- The handler on a received message from a peer with a ledger, in closed form. -/
theorem onConnectionHandlerEvent_rx (s : Bitswap PeerId Cid) (source : PeerId) (m : Message Cid)
    {l : Ledger Cid} (hl : s.connectedPeers source = some l) :
    s.onConnectionHandlerEvent source (.rx m) =
      let wants := m.want.filter fun w => w.1 ∉ s.wantedBlocks
      let received := wants.foldl (fun wl w => wl.insert w.1 w.2)
        (m.cancel.foldl (fun wl c => wl.erase c) l.receivedWantList)
      let l' := { l with receivedWantList := received }
      { s with
        events := s.events ++ m.cancel.map (fun c => .generateEvent (.receivedCancel source c)) ++
          wants.map (fun w => .generateEvent (.receivedWant source w.1 w.2)) ++
          m.blocks.map (fun b => .generateEvent (.receivedBlock source b))
        wantedBlocks := m.blocks.foldl (fun wl b => wl.erase b.cid) s.wantedBlocks
        connectedPeers := fun q => (Function.update s.connectedPeers source (some l') q).map
          fun l => m.blocks.foldl (fun l b => l.cancelBlock b.cid) l } := by
  simp only [onConnectionHandlerEvent, hl]
  rw [receiveCancels_eq source s hl, receiveWants_eq source _ _ (Function.update_same _ _ _),
    receiveBlocks_eq]
  simp [any_localWantlist, List.append_assoc]

/-- **Received messages.** For every engine state and every message from `source`: an
acknowledgement, or a message from a peer with no ledger, changes nothing and queues no event.
Otherwise the events appended are, in order, `ReceivedCancel(source, c)` for each cancelled `c`,
`ReceivedWant(source, c, p)` for each want entry `(c, p)` whose `c` was not in `wanted_blocks`
before the call, and `ReceivedBlock(source, b)` for each block `b`; the sender's received want
list loses the cancels and then takes those wants; `wanted_blocks` loses exactly the blocks'
CIDs, and every ledger goes through `cancel_block` for each of them; no other peer's received want
list changes. Reference: `on_connection_handler_event` (`behaviour.rs:297-360`), `cancel_block`
(`:242-247`). -/
theorem onConnectionHandlerEvent_spec (s : Bitswap PeerId Cid) (source : PeerId)
    (wrapper : MessageWrapper Cid) :
    (wrapper = .tx ∨ s.connectedPeers source = none →
      s.onConnectionHandlerEvent source wrapper = s) ∧
    ∀ m l, wrapper = .rx m → s.connectedPeers source = some l →
      let s' := s.onConnectionHandlerEvent source wrapper
      let wants := m.want.filter fun w => w.1 ∉ s.wantedBlocks
      let received := wants.foldl (fun wl w => wl.insert w.1 w.2)
        (m.cancel.foldl (fun wl c => wl.erase c) l.receivedWantList)
      s'.events = s.events ++ m.cancel.map (fun c => .generateEvent (.receivedCancel source c)) ++
        wants.map (fun w => .generateEvent (.receivedWant source w.1 w.2)) ++
        m.blocks.map (fun b => .generateEvent (.receivedBlock source b)) ∧
      (s'.connectedPeers source).map (·.receivedWantList) = some received ∧
      s'.wantedBlocks = m.blocks.foldl (fun wl b => wl.erase b.cid) s.wantedBlocks ∧
      (∀ q, s'.connectedPeers q = (s.connectedPeers q).map fun l =>
        m.blocks.foldl (fun l b => l.cancelBlock b.cid)
          (if q = source then { l with receivedWantList := received } else l)) ∧
      ∀ q, q ≠ source →
        (s'.connectedPeers q).map (·.receivedWantList) =
          (s.connectedPeers q).map (·.receivedWantList) := by
  refine ⟨fun h => ?_, fun m l hw hl => ?_⟩
  · rcases h with rfl | h
    · rfl
    · cases wrapper <;> simp [onConnectionHandlerEvent, h]
  subst hw
  rw [onConnectionHandlerEvent_rx s source m hl]
  refine ⟨rfl, by simp, rfl, fun q => ?_, fun q hq => by simp [hq, Function.comp_def]⟩
  by_cases hq : q = source
  · subst hq; simp [hl]
  · simp [hq]

end Bitswap

end RustIpfs
