import RustIpfs.Repo.Key

/-!
# Blocks, messages and ledgers

The engine of `src/deprecated/bitswap/src/behaviour.rs` keeps one `Ledger` per connected peer and
exchanges `Message`s; both come from `crate::ledger` and `Block` from `crate::block`, none of which
is among the sources. They are modelled here from the spec's contract (§3, §4.B): a ledger records
the wants sent to its peer, the wants received from it, the blocks queued for it and the cancels
and wants not yet sent, and `send` drains what is pending into one message.
-/

namespace RustIpfs

/-- Modelled from the spec: `Priority` of `crate::ledger`, missing from the sources; a non-negative
ordering hint, higher first. -/
abbrev Priority := Nat

/-- A map from CIDs to priorities: a want list. -/
abbrev WantList (Cid : Type) := AList fun _ : Cid => Priority

/-- Modelled from the spec: `Block` of `crate::block`, missing from the sources; an immutable pair
of a CID and its bytes. -/
structure Block (Cid : Type) where
  cid : Cid
  data : Bytes
  deriving DecidableEq, Repr

/-- Modelled from the spec: `Message` of `crate::ledger`, missing from the sources; the want
entries, the cancelled CIDs and the blocks of one Bitswap message. -/
structure Message (Cid : Type) where
  want : List (Cid × Priority)
  cancel : List Cid
  blocks : List (Block Cid)
  deriving DecidableEq, Repr

variable {Cid : Type} [DecidableEq Cid]

/-- Modelled from the spec: `Message::default()`, the empty message. -/
def Message.empty : Message Cid := ⟨[], [], []⟩

/-- Modelled from the spec: `Message::want_block`, an entry of the message's want map (the last
priority wins). -/
def Message.wantBlock (m : Message Cid) (cid : Cid) (priority : Priority) : Message Cid :=
  { m with want := m.want.filter (·.1 ≠ cid) ++ [(cid, priority)] }

/-- Modelled from the spec: `Ledger` of `crate::ledger`, missing from the sources. Besides the
spec's four fields, `unsentWants` holds the wants recorded since the last `send`: the spec's
"entries section of unsent wants". -/
structure Ledger (Cid : Type) where
  sentWantList : WantList Cid
  receivedWantList : WantList Cid
  queuedBlocks : List (Block Cid)
  sentCancels : List Cid
  unsentWants : WantList Cid

namespace Ledger

/-- Modelled from the spec: `Ledger::new()`, a ledger with nothing recorded. -/
def new : Ledger Cid := ⟨∅, ∅, [], [], ∅⟩

/-- Modelled from the spec: `Ledger::want_block`: insert or overwrite the want, and take the CID
out of the pending cancels. -/
def wantBlock (l : Ledger Cid) (cid : Cid) (priority : Priority) : Ledger Cid :=
  { l with
    sentWantList := l.sentWantList.insert cid priority
    sentCancels := l.sentCancels.erase cid
    unsentWants := l.unsentWants.insert cid priority }

/-- Modelled from the spec: `Ledger::cancel_block`: remove the want, and queue a cancel if the
want was there. -/
def cancelBlock (l : Ledger Cid) (cid : Cid) : Ledger Cid :=
  if cid ∈ l.sentWantList then
    { l with
      sentWantList := l.sentWantList.erase cid
      sentCancels := if cid ∈ l.sentCancels then l.sentCancels else l.sentCancels ++ [cid]
      unsentWants := l.unsentWants.erase cid }
  else l

/-- Modelled from the spec: `Ledger::add_block`: queue the block unless one with its CID is
queued. -/
def addBlock (l : Ledger Cid) (block : Block Cid) : Ledger Cid :=
  if l.queuedBlocks.any (·.cid = block.cid) then l
  else { l with queuedBlocks := l.queuedBlocks ++ [block] }

/-- Modelled from the spec: `Ledger::wantlist()`, the received want list as pairs. -/
def wantlist (l : Ledger Cid) : List (Cid × Priority) :=
  l.receivedWantList.entries.map fun e => (e.1, e.2)

/-- Modelled from the spec: `Ledger::send()`: `none` iff no block, cancel or unsent want is
pending; otherwise the message carrying all of them, and the ledger with them drained. -/
def send (l : Ledger Cid) : Option (Message Cid × Ledger Cid) :=
  if l.queuedBlocks = [] ∧ l.sentCancels = [] ∧ l.unsentWants.entries = [] then none
  else some (⟨l.unsentWants.entries.map (fun e => (e.1, e.2)), l.sentCancels, l.queuedBlocks⟩,
    { l with queuedBlocks := [], sentCancels := [], unsentWants := ∅ })

/-! ## The sent want list under each operation -/

variable {l l' : Ledger Cid} {c c' : Cid} {priority : Priority}

omit [DecidableEq Cid] in
@[simp] theorem sentWantList_new : (new : Ledger Cid).sentWantList = ∅ := rfl

@[simp] theorem sentWantList_wantBlock :
    (l.wantBlock c priority).sentWantList = l.sentWantList.insert c priority := rfl

@[simp] theorem sentWantList_addBlock (block : Block Cid) :
    (l.addBlock block).sentWantList = l.sentWantList := by
  unfold addBlock; split <;> rfl

/-- Cancelling a want removes it from the sent want list, whether it was there or not. -/
theorem lookup_sentWantList_cancelBlock :
    (l.cancelBlock c).sentWantList.lookup c' =
      if c' = c then none else l.sentWantList.lookup c' := by
  unfold cancelBlock
  by_cases hc : c ∈ l.sentWantList
  · rw [if_pos hc]
    show (l.sentWantList.erase c).lookup c' = _
    split_ifs with hc'
    · subst hc'; exact AList.lookup_erase _ _
    · exact AList.lookup_erase_ne hc'
  · rw [if_neg hc]
    split_ifs with hc'
    · subst hc'; exact AList.lookup_eq_none.2 hc
    · rfl

/-- `send` drains the pending parts only: the sent want list stays. -/
theorem sentWantList_send {message : Message Cid} (h : l.send = some (message, l')) :
    l'.sentWantList = l.sentWantList := by
  unfold send at h
  split_ifs at h
  cases h
  rfl

end Ledger

end RustIpfs
