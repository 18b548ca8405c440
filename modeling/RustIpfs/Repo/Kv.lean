import RustIpfs.Repo.Key

/-!
# The sled pin store

The `PinStore` implementation of `KvDataStore` (`src/repo/kv.rs`): its transactions over sled's
default tree, the range scan of `list` and the probes of `query`. A transaction body runs on the
tree it reads and writes; `.ok tree'` is the tree it commits and `.error` an abort, after which the
store is unchanged. The references of a recursive pin are collected into a `BTreeSet` before the
transaction starts, so a failing references stream aborts before any write. sled's storage
faults and the blocking-pool plumbing are not modelled: a faulting transaction commits nothing.
-/

namespace RustIpfs

namespace Kv

/-- sled's default tree: a finite map from byte keys to byte values. -/
abbrev Tree := AList fun _ : Bytes => Bytes

/-- `direct_value`: the empty value stored for direct pins. -/
def directValue : Bytes := []

/-- `recursive_value`: the empty value stored for recursive pins. -/
def recursiveValue : Bytes := []

variable {Cid : Type} [CidText Cid]

/-- `indirect_value`: the text of the recursively pinned CID an indirect pin comes from. -/
def indirectValue (recursivelyPinned : Cid) : Bytes := CidText.text recursivelyPinned

/-- `cid_from_indirect_value`, the inverse of `indirect_value`. -/
def cidFromIndirectValue (bytes : Bytes) : Option Cid := CidText.parse bytes

/-- `get_pinned_mode`: probes the keys of `block` in the order direct, recursive, indirect and
returns the first one present, with its mode. -/
def getPinnedMode (tree : Tree) (block : Cid) : Option (PinMode × Bytes) :=
  [PinMode.direct, .recursive, .indirect].findSome? fun mode =>
    let key := getPinKey block mode
    if (tree.lookup key).isSome then some (mode, key) else none

/-- `is_not_pinned_or_pinned_indirectly`. -/
def isNotPinnedOrPinnedIndirectly (tree : Tree) (block : Cid) : Bool :=
  match getPinnedMode tree block with
  | some (.indirect, _) | none => true
  | _ => false

/-- `is_pinned`. -/
def isPinned (tree : Tree) (cid : Cid) : Bool := (getPinnedMode tree cid).isSome

/-- The body of `insert_direct_pin`'s transaction. -/
def insertDirectPin (tree : Tree) (target : Cid) : Except String Tree :=
  match getPinnedMode tree target with
  | some (.direct, _) => .ok tree
  | some (.recursive, _) => .error "already pinned recursively"
  | some (.indirect, key) => .ok (writeDirect (tree.erase key))
  | none => .ok (writeDirect tree)
where
  /-- The write after the match: the direct key with the direct value. -/
  writeDirect (tree : Tree) : Tree := tree.insert (getPinKey target .direct) directValue

/-- The loop of `insert_recursive_pin` over the collected references: a CID with no pin yet,
probed against the transaction's own writes, gets an indirect key naming `target`. -/
def pinDescendants (target : Cid) (tree : Tree) (set : List Cid) : Tree :=
  set.foldl (fun tree cid =>
    if (getPinnedMode tree cid).isSome then tree
    else tree.insert (getPinKey cid .indirect) (indirectValue target)) tree

/-- The body of `insert_recursive_pin`'s transaction, over the collected set. It never aborts. -/
def insertRecursivePinTx (tree : Tree) (target : Cid) (set : List Cid) : Tree :=
  match getPinnedMode tree target with
  | some (.recursive, _) => tree
  | some (.direct, key) | some (.indirect, key) => pinTarget (tree.erase key)
  | none => pinTarget tree
where
  /-- The writes after the match: the recursive key, then the loop over `set`. -/
  pinTarget (tree : Tree) : Tree :=
    pinDescendants target (tree.insert (getPinKey target .recursive) recursiveValue) set

/-- The body of `remove_direct_pin`'s transaction. -/
def removeDirectPin (tree : Tree) (target : Cid) : Except String Tree :=
  if isNotPinnedOrPinnedIndirectly tree target then .error "not pinned or pinned indirectly"
  else .ok (tree.erase (getPinKey target .direct))

/-- The loop of `remove_recursive_pin`: a collected CID that is pinned indirectly loses its key;
direct and recursive pins are left alone. -/
def unpinDescendants (tree : Tree) (set : List Cid) : Tree :=
  set.foldl (fun tree cid =>
    match getPinnedMode tree cid with
    | some (.indirect, key) => tree.erase key
    | _ => tree) tree

/-- The body of `remove_recursive_pin`'s transaction, over the collected set. -/
def removeRecursivePinTx (tree : Tree) (target : Cid) (set : List Cid) : Except String Tree :=
  if isNotPinnedOrPinnedIndirectly tree target then .error "not pinned or pinned indirectly"
  else .ok (unpinDescendants (tree.erase (getPinKey target .recursive)) set)

/-! ## The references stream -/

/-- `References`: the stream of a root's descendants, each item a CID or an error. -/
abbrev References (Cid : Type) := List (Except String Cid)

section Collect
variable [LinearOrder Cid]

/-- `referenced.try_collect::<BTreeSet<_>>()`: the stream's first error, or its CIDs as a set,
iterated in ascending order. -/
def collectReferences (referenced : References Cid) : Except String (List Cid) := do
  let cids ← referenced.mapM id
  return (cids.insertionSort (· ≤ ·)).dedup

/-- `insert_recursive_pin`: collect the references, then run the transaction. -/
def insertRecursivePin (tree : Tree) (target : Cid) (referenced : References Cid) :
    Except String Tree := do
  let set ← collectReferences referenced
  return insertRecursivePinTx tree target set

/-- `remove_recursive_pin`: collect the references, then run the transaction. -/
def removeRecursivePin (tree : Tree) (target : Cid) (referenced : References Cid) :
    Except String Tree := do
  let set ← collectReferences referenced
  removeRecursivePinTx tree target set

end Collect

/-! ## Listing and querying -/

/-- Modelled from the spec: `PinKind` of `crate::repo`, missing from the sources; `query`'s answer
for one CID. -/
inductive PinKind (C : Type)
  | direct
  | recursive (depth : Nat)
  | indirectFrom (root : C)
  deriving DecidableEq, Repr

/-- The answer of `query`'s transaction for one id. -/
def queryOne (tree : Tree) (requirement : PinModeRequirement) (id : Cid) :
    Except String (Option (PinKind Cid)) :=
  match getPinnedMode tree id with
  | some (pinMode, key) =>
    if requirement.matches pinMode then
      match pinMode with
      | .direct => .ok (some .direct)
      | .recursive => .ok (some (.recursive 0))
      | .indirect =>
        match tree.lookup key with
        | none => .ok none
        | some root =>
          match cidFromIndirectValue root with
          | some cid => .ok (some (.indirectFrom cid))
          | none => .error ("failed to read indirect pin source: " ++ toString root)
    else .ok none
  | none => .ok none

/-- `query`: one transaction probing every id, then the ids zipped with their answers. -/
def query (tree : Tree) (ids : List Cid) (requirement : Option PinMode) :
    Except String (List (Cid × PinKind Cid)) := do
  let modes ← ids.mapM (queryOne tree (PinModeRequirement.ofOption requirement))
  return (ids.zip modes).filterMap fun e => e.2.map (e.1, ·)

end Kv

end RustIpfs
