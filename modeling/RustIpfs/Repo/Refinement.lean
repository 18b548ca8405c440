import RustIpfs.Repo.Runs

/-!
# The mutators refine the spec's abstract map

The spec describes the pin store as a map from CIDs to a mode and, for an indirect pin, the CID it
comes from (`PinMap`), and each mutator as an operation on that map (`PinMap.insertDirectPin`,
...), written here in the spec's words. A sled tree is read as such a map through the table it
holds at its pin keys (`pinTable`, `pinsOf`). On any tree with at most one key per CID
(`AtMostOnePinKey`), whatever other keys it holds, each call of a mutator fails exactly when the
spec's operation fails, with the same message, and otherwise commits a tree whose map is the
operation's result and which again has at most one key per CID (`pinOp_refines_spec`). The proof
goes through the table operations: the transactions simulate them on any tree holding a table
(`Simulates.insertDirectPin_sim`, ...), and each table operation, read as a map, is the spec's.
-/

namespace RustIpfs.Kv

variable {Cid : Type}

/-- Modelled from the spec: the entry of a pinned CID in the abstract map, its mode and, for an
indirect pin, its source, the CID its stored value parses to (`none` if it does not parse). -/
inductive Pin (Cid : Type)
  | direct
  | recursive
  | indirect (source : Option Cid)
  deriving DecidableEq, Repr

/-- Modelled from the spec: the abstract map from CIDs to their pins. -/
abbrev PinMap (Cid : Type) := Cid → Option (Pin Cid)

/-- Whether a pin is indirect. -/
def Pin.isIndirect : Pin Cid → Bool
  | .indirect _ => true
  | _ => false

variable [CidText Cid]

/-- The pin a table entry stands for: its mode and, for an indirect pin, the source
`cid_from_indirect_value` reads from the value. -/
def Pin.ofEntry : PinMode × Bytes → Pin Cid
  | (.direct, _) => .direct
  | (.recursive, _) => .recursive
  | (.indirect, v) => .indirect (cidFromIndirectValue v)

/-- The abstract map of a table. -/
def PinTable.pins (table : PinTable Cid) : PinMap Cid := fun c => (table c).map Pin.ofEntry

/-- The table a tree holds at its pin keys: for each CID the mode `get_pinned_mode` finds, with
the value under its key. -/
def pinTable (tree : Tree) : PinTable Cid := fun c =>
  (getPinnedMode tree c).bind fun e => (tree.lookup e.2).map (e.1, ·)

/-- The abstract map of a tree. -/
def pinsOf (tree : Tree) : PinMap Cid := (pinTable tree).pins

/-- The at-most-one-key invariant: of the three keys of each CID, at most one is present. -/
def AtMostOnePinKey (Cid : Type) [CidText Cid] (tree : Tree) : Prop :=
  ∀ c : Cid, ([PinMode.direct, .recursive, .indirect].filter fun m =>
    (tree.lookup (getPinKey c m)).isSome).length ≤ 1

/-! ## Trees with at most one key per CID -/

section Trees

variable {tree : Tree} {table : PinTable Cid}

/-- A tree with at most one key per CID holds its `pinTable`. -/
theorem AtMostOnePinKey.stores (h : AtMostOnePinKey Cid tree) :
    Stores tree (pinTable tree : PinTable Cid) := by
  refine ⟨fun c m => ?_⟩
  have hc := h c
  simp only [PinTable.lookup, pinTable, getPinnedMode_eq]
  rcases hd : tree.lookup (getPinKey c .direct) with _ | _ <;>
    rcases hr : tree.lookup (getPinKey c .recursive) with _ | _ <;>
    rcases hi : tree.lookup (getPinKey c .indirect) with _ | _ <;>
    simp [hd, hr, hi] at hc ⊢ <;> cases m <;> simp [hd, hr, hi]

/-- A tree holding a table has at most one key per CID. -/
theorem Stores.atMostOnePinKey (h : Stores tree table) : AtMostOnePinKey Cid tree := fun c => by
  simp only [h.lookup_getPinKey]
  rcases hc : table c with _ | ⟨_ | _ | _, v⟩ <;> simp [PinTable.lookup, hc]

/-- The table a tree holds is its `pinTable`. -/
theorem Stores.pinTable_eq (h : Stores tree table) : pinTable tree = table := by
  funext c
  simp only [pinTable, h.getPinnedMode_eq, PinTable.mode]
  rcases hc : table c with _ | ⟨m, v⟩
  · rfl
  · simp [h.lookup_getPinKey, PinTable.lookup, hc]

end Trees

/-! ## The operations in the spec's words -/

namespace PinMap

variable [DecidableEq Cid] (pins : PinMap Cid) (c : Cid)

/-- `insert_direct_pin(c)` as the spec states it: it fails with "already pinned recursively" iff
`c` is recursive; otherwise `c` becomes direct, dropping an indirect entry. -/
def insertDirectPin : Except String (PinMap Cid) :=
  if pins c = some .recursive then .error "already pinned recursively"
  else .ok (Function.update pins c (some .direct))

/-- `insert_recursive_pin(c, R)` as the spec states it: nothing changes if `c` is recursive;
otherwise `c` becomes recursive, dropping its direct or indirect entry, each member of `R` other
than `c` with no mode becomes indirect from `c`, and every other entry stays. -/
def insertRecursivePin (R : List Cid) : PinMap Cid :=
  if pins c = some .recursive then pins
  else fun d =>
    if d = c then some .recursive
    else if d ∈ R ∧ pins d = none then some (.indirect (some c))
    else pins d

/-- `remove_direct_pin(c)` as the spec states it: it fails with "not pinned or pinned indirectly"
iff `c` has no mode or is indirect; otherwise `c`'s direct entry, if any, is deleted. -/
def removeDirectPin : Except String (PinMap Cid) :=
  match pins c with
  | none | some (.indirect _) => .error "not pinned or pinned indirectly"
  | some _ => .ok fun d => if d = c ∧ pins d = some .direct then none else pins d

/-- `remove_recursive_pin(c, R)` as the spec states it: it fails as `remove_direct_pin(c)` does;
otherwise `c`'s recursive entry, if any, is deleted, and so are the indirect entries of the
members of `R`, and nothing else. -/
def removeRecursivePin (R : List Cid) : Except String (PinMap Cid) :=
  match pins c with
  | none | some (.indirect _) => .error "not pinned or pinned indirectly"
  | some _ => .ok fun d =>
    if d = c ∧ pins d = some .recursive then none
    else if d ∈ R ∧ (pins d).any Pin.isIndirect then none
    else pins d

end PinMap

/-! ## Each table operation is the spec's operation -/

namespace PinTable

variable {table : PinTable Cid}

/-- The spec reads a table's mode off its map. -/
theorem pins_eq_some_iff (table : PinTable Cid) (c : Cid) :
    (table.pins c = some .direct ↔ table.mode c = some .direct) ∧
    (table.pins c = some .recursive ↔ table.mode c = some .recursive) ∧
    (table.pins c = none ↔ table.mode c = none) ∧
    ((table.pins c).any Pin.isIndirect ↔ table.mode c = some .indirect) := by
  simp only [pins, mode]
  rcases table c with _ | ⟨_ | _ | _, v⟩ <;> simp [Pin.ofEntry, Pin.isIndirect]

variable [DecidableEq Cid]

@[simp] theorem pins_set (c : Cid) (e : Option (PinMode × Bytes)) :
    (table.set c e).pins = Function.update table.pins c (e.map Pin.ofEntry) := by
  funext d
  by_cases hd : d = c
  · subst hd; simp [pins]
  · simp [pins, hd]

theorem pins_insertDirectPin (c : Cid) :
    (table.insertDirectPin c).map pins = table.pins.insertDirectPin c := by
  obtain ⟨hd, hr, -, -⟩ := pins_eq_some_iff table c
  simp only [insertDirectPin, PinMap.insertDirectPin, hr]
  rcases hm : table.mode c with _ | _ | _ | _
  · simp [Pin.ofEntry, Except.map]
  · rw [if_neg (by simp), ← hd.2 hm, Function.update_eq_self]; rfl
  · rfl
  · simp [Pin.ofEntry, Except.map]

theorem pins_insertRecursivePin (c : Cid) (set : List Cid) :
    (table.insertRecursivePin c set).pins = table.pins.insertRecursivePin c set := by
  obtain ⟨-, hr, -, -⟩ := pins_eq_some_iff table c
  simp only [insertRecursivePin, PinMap.insertRecursivePin, hr]
  split_ifs with hc
  · rfl
  funext d
  by_cases hd : d = c
  · subst hd; simp [pins, pinDescendants, mode, Pin.ofEntry]
  · have hnone := (pins_eq_some_iff table d).2.2.1
    simp only [pins, pinDescendants, mode_set, PinTable.set_apply, if_neg hd] at hnone ⊢
    split_ifs <;> simp_all [Pin.ofEntry, indirectValue, cidFromIndirectValue, CidText.parse_text]

theorem pins_removeDirectPin (c : Cid) :
    (table.removeDirectPin c).map pins = table.pins.removeDirectPin c := by
  have hpc : table.pins c = (table c).map Pin.ofEntry := rfl
  simp only [removeDirectPin, PinMap.removeDirectPin, mode, hpc]
  rcases hc : table c with _ | ⟨_ | _ | _, v⟩ <;> simp only [Option.map, Pin.ofEntry] <;>
    try rfl
  all_goals
    simp only [Except.map, Except.ok.injEq]
    funext d
    by_cases h : d = c
    · subst h; simp [pins, hc, Pin.ofEntry]
    · simp [pins, h]

theorem pins_unpinDescendants (set : List Cid) :
    (table.unpinDescendants set).pins =
      fun d => if d ∈ set ∧ (table.pins d).any Pin.isIndirect then none else table.pins d := by
  funext d
  show (if d ∈ set ∧ table.mode d = some .indirect then none else table d).map Pin.ofEntry = _
  simp only [(pins_eq_some_iff table d).2.2.2]
  split_ifs <;> rfl

theorem pins_removeRecursivePin (c : Cid) (set : List Cid) :
    (table.removeRecursivePin c set).map pins = table.pins.removeRecursivePin c set := by
  have hpc : table.pins c = (table c).map Pin.ofEntry := rfl
  simp only [removeRecursivePin, PinMap.removeRecursivePin, mode, hpc]
  rcases hc : table c with _ | ⟨_ | _ | _, v⟩ <;> simp only [Option.map, Pin.ofEntry] <;>
    try rfl
  all_goals
    simp only [Except.map, Except.ok.injEq, pins_unpinDescendants, pins_set]
    funext d
    by_cases h : d = c
    · subst h; simp [pins, hc, Pin.ofEntry, Pin.isIndirect]
    · simp [h]

end PinTable

/-! ## Calls -/

section Calls

variable [LinearOrder Cid]

/-- The spec's reading of a call: the references stream is read first, and a stream that fails
fails the call with its error; then the operation runs on the abstract map, over the stream's
CIDs. -/
def PinOp.spec : PinOp Cid → PinMap Cid → Except String (PinMap Cid)
  | .insertDirectPin t, pins => pins.insertDirectPin t
  | .insertRecursivePin t referenced, pins =>
    (referenced.mapM id).map (pins.insertRecursivePin t)
  | .removeDirectPin t, pins => pins.removeDirectPin t
  | .removeRecursivePin t referenced, pins =>
    (referenced.mapM id).bind (pins.removeRecursivePin t)

omit [CidText Cid] in
/-- The collected set has the stream's CIDs. -/
theorem collectReferences_eq (referenced : References Cid) :
    ∃ set, collectReferences referenced = (referenced.mapM id).map (fun _ => set) ∧
      ∀ cids, referenced.mapM id = .ok cids → ∀ d, d ∈ set ↔ d ∈ cids := by
  simp only [collectReferences]
  cases referenced.mapM id with
  | error e => exact ⟨[], rfl, fun _ h => nomatch h⟩
  | ok cids =>
    refine ⟨(cids.insertionSort (· ≤ ·)).dedup, rfl, fun _ h d => ?_⟩
    cases h
    simp [(List.perm_insertionSort _ _).mem_iff]

/-- Each table operation, read as a map, is the spec's operation on the table's map. -/
theorem PinOp.runTable_pins (op : PinOp Cid) (table : PinTable Cid) :
    (op.runTable table).map PinTable.pins = op.spec table.pins := by
  cases op with
  | insertDirectPin t => exact PinTable.pins_insertDirectPin t
  | removeDirectPin t => exact PinTable.pins_removeDirectPin t
  | insertRecursivePin t referenced =>
    obtain ⟨set, hset, hmem⟩ := collectReferences_eq referenced
    simp only [runTable, spec, hset]
    cases hr : referenced.mapM id
    · rfl
    · simp only [Except.map, PinTable.pins_insertRecursivePin, PinMap.insertRecursivePin,
        hmem _ hr]
  | removeRecursivePin t referenced =>
    obtain ⟨set, hset, hmem⟩ := collectReferences_eq referenced
    simp only [runTable, spec, hset]
    cases hr : referenced.mapM id
    · rfl
    · show (table.removeRecursivePin t set).map PinTable.pins = _
      rw [PinTable.pins_removeRecursivePin]
      simp only [Except.bind, PinMap.removeRecursivePin, hmem _ hr]

/-- A call on a tree with at most one key per CID fails exactly when the spec's operation on the
tree's map fails, with its message, and otherwise commits a tree with the operation's map. -/
theorem PinOp.run_refines {tree : Tree} (h : AtMostOnePinKey Cid tree) (op : PinOp Cid) :
    Agree (fun tree' pins => pinsOf tree' = pins ∧ AtMostOnePinKey Cid tree')
      (op.run tree) (op.spec (pinsOf tree)) := by
  rw [pinsOf, ← PinOp.runTable_pins]
  exact (PinOp.sim Stores.simulates h.stores op).map fun _ _ hs =>
    ⟨congrArg PinTable.pins hs.pinTable_eq, hs.atMostOnePinKey⟩

/-- **The mutators refine the spec's abstract map.** On any tree with at most one key per CID,
whatever other keys it holds, a call of any mutator, on any CID and any references stream, fails
exactly when the spec's operation on the tree's map fails, with the same message, and leaves the
tree as it was; otherwise it commits a tree whose map is the operation's result and which has at
most one key per CID again. Reference: `insert_direct_pin`, `insert_recursive_pin`,
`remove_direct_pin`, `remove_recursive_pin` (`src/repo/kv.rs:114-287`), `get_pinned_mode` and
`is_not_pinned_or_pinned_indirectly` (`:499-522`). -/
theorem pinOp_refines_spec {tree : Tree} (h : AtMostOnePinKey Cid tree) (op : PinOp Cid) :
    Agree (fun tree' pins => pinsOf tree' = pins ∧ AtMostOnePinKey Cid tree')
      (op.run tree) (op.spec (pinsOf tree)) ∧
    ∀ e, op.run tree = .error e → op.apply tree = tree :=
  ⟨PinOp.run_refines h op, fun e he => by simp only [PinOp.apply, he]⟩

/-- The store with CID `0` pinned directly. -/
def directZero : Tree := (PinOp.insertDirectPin (0 : Fin 3)).apply ∅

theorem pinOp_refines_spec_directZero :
    AtMostOnePinKey (Fin 3) directZero ∧
    Agree (fun tree' pins => pinsOf tree' = pins ∧ AtMostOnePinKey (Fin 3) tree')
      ((PinOp.insertRecursivePin (0 : Fin 3) [.ok 0, .ok 1]).run directZero)
      ((PinOp.insertRecursivePin (0 : Fin 3) [.ok 0, .ok 1]).spec (pinsOf directZero)) ∧
    ∀ e, (PinOp.insertRecursivePin (0 : Fin 3) [.ok 0, .ok 1]).run directZero = .error e →
      (PinOp.insertRecursivePin (0 : Fin 3) [.ok 0, .ok 1]).apply directZero = directZero :=
  have h : AtMostOnePinKey (Fin 3) directZero := by unfold AtMostOnePinKey; decide
  ⟨h, pinOp_refines_spec h _⟩

end Calls

end RustIpfs.Kv
