import RustIpfs.Bitswap.Counters
import RustIpfs.Bitswap.Handler

/-!
# Reports come from the peers

The engine learns what a peer wants only from the messages its handler hands over: the want loop
of `on_connection_handler_event` writes the sender's `received_want_list`, which `peer_wantlist`
returns, and the three loops queue one `ReceivedCancel`, `ReceivedWant` or `ReceivedBlock` event
per item. Every other operation only removes received wants (`dont_have`, a new or closed
connection), and queues no event for the user (`Bitswap.NoNewReports`).

So along every run, every entry of a peer's want list and every event the engine has queued or
`poll` has returned is carried by a message received from the peer the entry or event names
(`World.Heard`, `run_reports`): the engine never reports a want, a cancel or a block that no peer
sent.
-/

namespace RustIpfs

variable {PeerId Cid : Type} [DecidableEq PeerId] [DecidableEq Cid]

/-- Whether an input is a message received from the peer an event names, carrying what the event
reports: the want entry of a `ReceivedWant`, the cancel of a `ReceivedCancel`, the block of a
`ReceivedBlock`. -/
def Input.carries : Input PeerId Cid → BitswapEvent PeerId Cid → Bool
  | .handlerEvent q (.rx m), .receivedWant p c priority =>
    decide (q = p ∧ (c, priority) ∈ m.want)
  | .handlerEvent q (.rx m), .receivedCancel p c => decide (q = p ∧ c ∈ m.cancel)
  | .handlerEvent q (.rx m), .receivedBlock p b => decide (q = p ∧ b ∈ m.blocks)
  | _, _ => false

/-! ## Received want lists -/

namespace WantList

variable {wl : WantList Cid} {c : Cid} {priority : Priority}

theorem lookup_of_lookup_erase {c' : Cid} (h : (wl.erase c').lookup c = some priority) :
    wl.lookup c = some priority := by
  by_cases hc : c = c'
  · subst hc; rw [AList.lookup_erase] at h; cases h
  · rwa [AList.lookup_erase_ne hc] at h

theorem lookup_of_lookup_foldl_erase :
    ∀ {cs : List Cid} {wl : WantList Cid},
      (cs.foldl (fun wl c => wl.erase c) wl).lookup c = some priority →
        wl.lookup c = some priority
  | [], _, h => h
  | _ :: _, _, h => lookup_of_lookup_erase (lookup_of_lookup_foldl_erase h)

/-- An entry after a loop of inserts was there before, or was inserted. -/
theorem lookup_of_lookup_foldl_insert :
    ∀ {ws : List (Cid × Priority)} {wl : WantList Cid},
      (ws.foldl (fun wl w => wl.insert w.1 w.2) wl).lookup c = some priority →
        wl.lookup c = some priority ∨ (c, priority) ∈ ws
  | [], _, h => .inl h
  | w :: ws, wl, h => by
    rw [List.foldl_cons] at h
    rcases lookup_of_lookup_foldl_insert h with h | h
    · by_cases hc : c = w.1
      · subst hc
        rw [AList.lookup_insert, Option.some.injEq] at h
        subst h
        exact .inr (List.mem_cons_self _ _)
      · rw [AList.lookup_insert_ne hc] at h
        exact .inl h
    · exact .inr (List.mem_cons_of_mem _ h)

end WantList

namespace Ledger

variable {l : Ledger Cid}

@[simp] theorem receivedWantList_addBlock (block : Block Cid) :
    (l.addBlock block).receivedWantList = l.receivedWantList := by
  unfold addBlock; split <;> rfl

theorem receivedWantList_send {message : Message Cid} {l' : Ledger Cid}
    (h : l.send = some (message, l')) : l'.receivedWantList = l.receivedWantList := by
  unfold send at h
  split_ifs at h
  cases h
  rfl

end Ledger

namespace Bitswap

/-- The priority of `c` in the want list received from `p`, if `p` has a ledger holding it. -/
def receivedWant (s : Bitswap PeerId Cid) (p : PeerId) (c : Cid) : Option Priority :=
  (s.connectedPeers p).bind (·.receivedWantList.lookup c)

omit [DecidableEq PeerId] in
/-- `peer_wantlist` lists the received wants. -/
theorem receivedWant_of_mem_peerWantlist {s : Bitswap PeerId Cid} {p : PeerId}
    {wants : List (Cid × Priority)} (h : s.peerWantlist p = some wants) {w : Cid × Priority}
    (hw : w ∈ wants) : s.receivedWant p w.1 = some w.2 := by
  simp only [peerWantlist, Option.map_eq_some'] at h
  obtain ⟨l, hl, rfl⟩ := h
  simp only [Ledger.wantlist, List.mem_map] at hw
  obtain ⟨e, he, rfl⟩ := hw
  simp only [receivedWant, hl, Option.some_bind]
  exact AList.mem_lookup_iff.2 he

/-- `s'` reports nothing `s` does not: every received want of `s'` is one of `s`, and every event
`s'` has queued for the user was queued in `s`. -/
structure NoNewReports (s s' : Bitswap PeerId Cid) : Prop where
  received : ∀ p c priority, s'.receivedWant p c = some priority →
    s.receivedWant p c = some priority
  events : ∀ e, .generateEvent e ∈ s'.events → .generateEvent e ∈ s.events

variable {s s₁ s₂ s₃ : Bitswap PeerId Cid}

omit [DecidableEq PeerId] in
theorem NoNewReports.refl (s : Bitswap PeerId Cid) : NoNewReports s s :=
  ⟨fun _ _ _ => id, fun _ => id⟩

omit [DecidableEq PeerId] in
theorem NoNewReports.trans (h₁ : NoNewReports s₁ s₂) (h₂ : NoNewReports s₂ s₃) :
    NoNewReports s₁ s₃ :=
  ⟨fun p c priority h => h₁.1 p c priority (h₂.1 p c priority h),
    fun e h => h₁.2 e (h₂.2 e h)⟩

omit [DecidableEq PeerId] in
/-- A loop whose every turn reports nothing new reports nothing new. -/
theorem NoNewReports.foldl {α : Type} {g : Bitswap PeerId Cid → α → Bitswap PeerId Cid}
    (hg : ∀ s x, NoNewReports s (g s x)) (xs : List α) (s : Bitswap PeerId Cid) :
    NoNewReports s (xs.foldl g s) :=
  List.foldlRecOn (motive := NoNewReports s) xs g s (.refl s) fun s' h x _ => h.trans (hg s' x)

omit [DecidableEq PeerId] in
/-- The global want list is no report. -/
theorem NoNewReports.setWantedBlocks (h : NoNewReports s₁ s₂) (wantedBlocks : WantList Cid) :
    NoNewReports s₁ { s₂ with wantedBlocks } :=
  ⟨h.1, h.2⟩

omit [DecidableEq PeerId] in
/-- A step that keeps the queue and the ledgers' received want lists reports nothing new. -/
theorem noNewReports_of_eq (he : s₂.events = s₁.events)
    (hr : ∀ p, (s₂.connectedPeers p).map (·.receivedWantList) =
      (s₁.connectedPeers p).map (·.receivedWantList)) : NoNewReports s₁ s₂ := by
  refine ⟨fun p c priority h => ?_, fun e h => he ▸ h⟩
  have := hr p
  simp only [receivedWant] at h ⊢
  cases h₁ : s₁.connectedPeers p <;> cases h₂ : s₂.connectedPeers p <;> simp_all

omit [DecidableEq PeerId] in
theorem noNewReports_pushEvent (s : Bitswap PeerId Cid) {action : Action PeerId Cid}
    (h : ∀ e, action ≠ .generateEvent e) : NoNewReports s (s.pushEvent action) :=
  ⟨fun _ _ _ => id, fun e he => by
    rcases List.mem_append.1 he with he | he
    · exact he
    · exact absurd (List.mem_singleton.1 he).symm (h e)⟩

/-- Updating one ledger by a function that only drops received wants reports nothing new. -/
theorem noNewReports_modifyLedger (s : Bitswap PeerId Cid) (q : PeerId)
    {f : Ledger Cid → Ledger Cid}
    (hf : ∀ l c priority, (f l).receivedWantList.lookup c = some priority →
      l.receivedWantList.lookup c = some priority) :
    NoNewReports s (s.modifyLedger q f) := by
  unfold modifyLedger
  split
  · next l hl =>
    refine ⟨fun p c priority h => ?_, fun _ => id⟩
    by_cases hp : p = q
    · subst hp; simp only [receivedWant, Function.update_same, Option.some_bind] at h
      simpa [receivedWant, hl] using hf l c priority h
    · simpa [receivedWant, hp] using h
  · exact .refl s

omit [DecidableEq PeerId] in
/-- Updating every ledger by a function that only drops received wants reports nothing new. -/
theorem noNewReports_mapLedgers (s : Bitswap PeerId Cid) {f : Ledger Cid → Ledger Cid}
    (hf : ∀ l c priority, (f l).receivedWantList.lookup c = some priority →
      l.receivedWantList.lookup c = some priority) :
    NoNewReports s (s.mapLedgers f) := by
  refine ⟨fun p c priority h => ?_, fun _ => id⟩
  simp only [receivedWant, mapLedgers] at h ⊢
  cases hp : s.connectedPeers p <;> simp only [hp, Option.map_none', Option.map_some',
    Option.none_bind, Option.some_bind] at h ⊢
  · cases h
  · exact hf _ c priority h

omit [DecidableEq PeerId] in
theorem noNewReports_cancelBlock (s : Bitswap PeerId Cid) (c : Cid) :
    NoNewReports s (s.cancelBlock c) :=
  (s.noNewReports_mapLedgers fun l c' priority h => by
    rwa [Ledger.receivedWantList_cancelBlock] at h).setWantedBlocks _

/-- Removing a received want reports nothing new. -/
theorem removeReceivedWant_lookup (c : Cid) (l : Ledger Cid) (c' : Cid) (priority : Priority)
    (h : (l.removeReceivedWant c).receivedWantList.lookup c' = some priority) :
    l.receivedWantList.lookup c' = some priority :=
  WantList.lookup_of_lookup_erase h

omit [DecidableEq PeerId] in
theorem noNewReports_sendWantList (s : Bitswap PeerId Cid) (q : PeerId) :
    NoNewReports s (s.sendWantList q) := by
  unfold sendWantList
  split
  · exact s.noNewReports_pushEvent fun _ h => by cases h
  · exact .refl s

theorem noNewReports_connect (s : Bitswap PeerId Cid) (q : PeerId) :
    NoNewReports s (s.connect q) := by
  unfold Bitswap.connect
  split
  · exact .refl s
  · exact ⟨fun _ _ _ => id,
      (s.noNewReports_pushEvent (fun _ h => by cases h) :
        NoNewReports s (s.pushEvent (.dial q))).2⟩

/-- A new connection gives its peer an empty ledger. -/
theorem noNewReports_connectionEstablished (s : Bitswap PeerId Cid) (q : PeerId) (n : Nat) :
    NoNewReports s (s.onSwarmEvent (.connectionEstablished q n)) := by
  refine NoNewReports.trans ?_ (noNewReports_sendWantList _ q)
  refine ⟨fun p c priority h => ?_, fun _ => id⟩
  by_cases hp : p = q
  · subst hp; simp [receivedWant, Ledger.new] at h
  · simpa [receivedWant, hp] using h

/-- A closed connection removes its peer's ledger. -/
theorem noNewReports_connectionClosed (s : Bitswap PeerId Cid) (q : PeerId) (n : Nat) :
    NoNewReports s (s.onSwarmEvent (.connectionClosed q n)) := by
  refine ⟨fun p c priority h => ?_, fun _ => id⟩
  by_cases hp : p = q
  · subst hp; simp [receivedWant, onSwarmEvent] at h
  · simpa [receivedWant, onSwarmEvent, hp] using h

theorem noNewReports_drainDontHave (s : Bitswap PeerId Cid) : NoNewReports s s.drainDontHave :=
  (noNewReports_of_eq rfl fun _ => rfl : NoNewReports s { s with dontHaveRx := [] }).trans
    (NoNewReports.foldl (fun s (x : PeerId × Cid) =>
      s.noNewReports_modifyLedger x.1 (removeReceivedWant_lookup x.2)) _ _)

theorem noNewReports_drainReadyBlocks (s : Bitswap PeerId Cid) :
    NoNewReports s s.drainReadyBlocks :=
  (noNewReports_of_eq rfl fun _ => rfl : NoNewReports s { s with readyBlocks := [] }).trans
    (NoNewReports.foldl (fun s (x : PeerId × Block Cid) =>
      s.noNewReports_modifyLedger x.1 fun l c priority h => by
        rwa [Ledger.receivedWantList_addBlock] at h) _ _)

/-- The ledger loop stores the ledger `send` leaves, with the same received wants. -/
theorem noNewReports_pollLedgers (s : Bitswap PeerId Cid) (order : List PeerId) :
    NoNewReports s (s.pollLedgers order).1 := by
  rcases s.pollLedgers_cases order with hpoll | ⟨q, l, message, l', hl, hsend, hpoll⟩ <;>
    rw [hpoll]
  · exact .refl s
  refine noNewReports_of_eq rfl fun p => ?_
  by_cases hp : p = q
  · subst hp; simp [hl, Ledger.receivedWantList_send hsend]
  · simp [hp]

/-- The ledger loop returns no event for the user. -/
theorem pollLedgers_ne_generateEvent (s : Bitswap PeerId Cid) (order : List PeerId)
    (e : BitswapEvent PeerId Cid) : .generateEvent e ∉ (s.pollLedgers order).2.toList := by
  rcases s.pollLedgers_cases order with hpoll | ⟨q, l, message, l', -, -, hpoll⟩ <;>
    simp [hpoll]

end Bitswap

/-! ## Runs -/

namespace World

/-- Every want a ledger holds, and every event for the user the engine has queued or `poll` has
returned, is carried by a message received in `past`. -/
structure Heard (w : World PeerId Cid) (past : List (Input PeerId Cid)) : Prop where
  received : ∀ p c priority, w.engine.receivedWant p c = some priority →
    ∃ i ∈ past, i.carries (.receivedWant p c priority)
  events : ∀ e, .generateEvent e ∈ w.actions → ∃ i ∈ past, i.carries e

variable {w w' : World PeerId Cid} {past : List (Input PeerId Cid)}

theorem Heard.init : (World.init : World PeerId Cid).Heard [] :=
  ⟨fun _ _ _ h => (nomatch h), fun _ h => (nomatch h)⟩

/-- What was heard stays heard. -/
theorem Heard.mono (h : w.Heard past) (more : List (Input PeerId Cid)) : w.Heard (past ++ more) :=
  ⟨fun p c priority hp =>
    (h.1 p c priority hp).imp fun _ hi => ⟨List.mem_append_left _ hi.1, hi.2⟩,
    fun e he => (h.2 e he).imp fun _ hi => ⟨List.mem_append_left _ hi.1, hi.2⟩⟩

/-- A step of the engine that reports nothing new, and adds no event for the user to the actions
`poll` has returned, keeps what was heard. -/
theorem Heard.of_noNewReports (h : w.Heard past) (hr : w.engine.NoNewReports w'.engine)
    (hp : ∀ e, .generateEvent e ∈ w'.polled → .generateEvent e ∈ w.actions) :
    w'.Heard past :=
  ⟨fun p c priority h' => h.1 p c priority (hr.1 p c priority h'), fun e he => h.2 e <| by
    rcases List.mem_append.1 he with he | he
    · exact hp e he
    · exact List.mem_append_right _ (hr.2 e he)⟩

/-- A received message: its cancels, fresh wants and blocks become events, and its fresh wants
enter the sender's received want list, all carried by the message. -/
theorem Heard.handlerEvent (h : w.Heard past) (p : PeerId) (wrapper : MessageWrapper Cid) :
    (w.step (.handlerEvent p wrapper)).Heard (past ++ [.handlerEvent p wrapper]) := by
  have hi : Input.handlerEvent p wrapper ∈ past ++ [.handlerEvent p wrapper] :=
    List.mem_append_right _ (List.mem_singleton_self _)
  rcases wrapper with _ | m
  · exact h.mono _
  rcases hl : w.engine.connectedPeers p with _ | l
  · simpa [step, Bitswap.onConnectionHandlerEvent, hl] using h.mono [.handlerEvent p (.rx m)]
  have hstep : (w.step (.handlerEvent p (.rx m))).engine = _ :=
    Bitswap.onConnectionHandlerEvent_rx w.engine p m hl
  refine ⟨fun q c priority hq => ?_, fun e he => ?_⟩
  · rw [hstep] at hq
    by_cases hqp : q = p
    · subst hqp
      simp only [Bitswap.receivedWant, Function.update_same, Option.map_some', Option.some_bind,
        Ledger.receivedWantList_foldl_cancelBlock] at hq
      rcases WantList.lookup_of_lookup_foldl_insert hq with hq | hq
      · exact (h.mono _).1 q c priority (by
          simpa [Bitswap.receivedWant, hl] using WantList.lookup_of_lookup_foldl_erase hq)
      · exact ⟨_, hi, by simp [Input.carries, (List.mem_filter.1 hq).1]⟩
    · simp only [Bitswap.receivedWant, Function.update_noteq hqp, Option.bind_map,
        Function.comp_def, Ledger.receivedWantList_foldl_cancelBlock] at hq
      exact (h.mono _).1 q c priority hq
  · have hp : (w.step (.handlerEvent p (.rx m))).polled = w.polled := rfl
    simp only [actions, hstep, hp, List.mem_append, List.mem_map] at he
    rcases he with he | (((he | ⟨c, hc, he⟩) | ⟨x, hx, he⟩) | ⟨b, hb, he⟩)
    · exact (h.mono _).2 e (List.mem_append_left _ he)
    · exact (h.mono _).2 e (List.mem_append_right _ he)
    all_goals
      cases he
      exact ⟨_, hi, by simp_all [Input.carries, List.mem_filter]⟩

variable (w)

/-- **One step.** Every input keeps what was heard, with itself added to the past. -/
theorem Heard.step (h : w.Heard past) (i : Input PeerId Cid) :
    (w.step i).Heard (past ++ [i]) := by
  have quiet : ∀ {w' : World PeerId Cid}, w'.polled = w.polled →
      w.engine.NoNewReports w'.engine → w'.Heard (past ++ [i]) :=
    fun hp hr => (h.mono [i]).of_noNewReports hr fun e he => List.mem_append_left _ (hp ▸ he)
  cases i with
  | connect q => exact quiet rfl (w.engine.noNewReports_connect q)
  | wantBlock c priority =>
    exact quiet rfl (Bitswap.NoNewReports.setWantedBlocks (w.engine.noNewReports_mapLedgers
      (f := (·.wantBlock c priority)) fun _ _ _ => id) _)
  | wantBlockFromPeers c priority peers =>
    exact quiet rfl ((Bitswap.NoNewReports.foldl (fun s q =>
      s.noNewReports_modifyLedger q (f := (·.wantBlock c priority)) fun _ _ _ => id) peers
        w.engine).setWantedBlocks _)
  | cancelBlock c => exact quiet rfl (w.engine.noNewReports_cancelBlock c)
  | sendBlock q block =>
    exact quiet rfl (w.engine.noNewReports_modifyLedger q (f := (·.addBlock block))
      fun l c priority h => by rwa [Ledger.receivedWantList_addBlock] at h)
  | dontHave c => exact quiet rfl (w.engine.noNewReports_mapLedgers
      (Bitswap.removeReceivedWant_lookup c))
  | dontHaveForPeer q c => exact quiet rfl (w.engine.noNewReports_modifyLedger q
      (Bitswap.removeReceivedWant_lookup c))
  | connectionEstablished q =>
    exact quiet rfl (w.engine.noNewReports_connectionEstablished q (w.connections q))
  | connectionClosed q =>
    exact quiet rfl (w.engine.noNewReports_connectionClosed q (w.connections q - 1))
  | handlerEvent q message => exact h.handlerEvent q message
  | sendReadyBlock q block => exact quiet rfl (Bitswap.noNewReports_of_eq rfl fun _ => rfl)
  | sendDontHave q c => exact quiet rfl (Bitswap.noNewReports_of_eq rfl fun _ => rfl)
  | poll order =>
    rcases w.step_poll order with ⟨e, es, he, hw⟩ | ⟨-, hw⟩ <;> rw [hw]
    · refine (h.mono [_]).of_noNewReports
        ⟨fun _ _ _ => id, fun e' he' => he ▸ List.mem_cons_of_mem _ he'⟩ fun e' he' => ?_
      simp only [actions, he, List.mem_append, List.mem_cons, List.mem_singleton] at he' ⊢
      tauto
    · have hr := (w.engine.noNewReports_drainDontHave.trans
        (Bitswap.noNewReports_drainReadyBlocks _)).trans (Bitswap.noNewReports_pollLedgers _ order)
      refine (h.mono [_]).of_noNewReports hr fun e' he' => ?_
      rcases List.mem_append.1 he' with he' | he'
      · exact List.mem_append_left _ he'
      · exact absurd he'
          (w.engine.drainDontHave.drainReadyBlocks.pollLedgers_ne_generateEvent _ e')

variable {w}

/-- Along a run, what was heard stays heard, with the run's inputs added to the past. -/
theorem Heard.run (h : w.Heard past) (inputs : List (Input PeerId Cid)) :
    (w.run inputs).Heard (past ++ inputs) := by
  induction inputs generalizing w past with
  | nil => simpa [run] using h
  | cons i inputs ih => simpa [run, List.append_assoc] using ih (h.step w i)

end World

/-- **Reports come from the peers.** Along every run from the default engine, with any
interleaving of calls, channel items, connection events, handler messages and polls: every entry
`(c, priority)` of the want list `peer_wantlist(p)` returns is a want entry of a message received
from `p` during the run, and every `ReceivedWant`, `ReceivedCancel` or `ReceivedBlock` event the
engine has queued or `poll` has returned is carried by a message received from the peer it names:
the want entry, the cancel, or the block. Reference: `peer_wantlist` (`behaviour.rs:140-142`),
`on_connection_handler_event` (`:297-360`), `dont_have` and `dont_have_for_peer` (`:223-236`),
`on_swarm_event` (`:259-275`). -/
theorem run_reports (inputs : List (Input PeerId Cid)) :
    (∀ p wants, (World.init.run inputs).engine.peerWantlist p = some wants →
      ∀ w ∈ wants, ∃ i ∈ inputs, i.carries (.receivedWant p w.1 w.2)) ∧
    ∀ e, .generateEvent e ∈ (World.init.run inputs).actions →
      ∃ i ∈ inputs, i.carries e := by
  have h : (World.init.run inputs).Heard ([] ++ inputs) := World.Heard.init.run inputs
  rw [List.nil_append] at h
  exact ⟨fun p wants hp w hw => h.1 p w.1 w.2 (Bitswap.receivedWant_of_mem_peerWantlist hp hw),
    h.2⟩

end RustIpfs
