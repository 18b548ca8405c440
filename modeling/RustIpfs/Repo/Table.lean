import RustIpfs.Repo.Kv

/-!
# The pin table: what a pin store means

A pin store holds at most one pin for each CID: a mode, and the value stored under the key of that
mode. `PinTable` is that abstract state, and the four mutators are operations on it
(`PinTable.insertDirectPin`, ...). `Stores tree table` says that each pin key of a sled tree holds
what the table says, and `Abs tree table` adds that the tree has no other key. The simulation theorems
(`insertDirectPin_sim`, ...) show that each transaction of `src/repo/kv.rs`, run on a tree storing
a table, aborts exactly when the table operation fails, with the same message, and otherwise
commits a tree storing the operation's result. The loops of the recursive transactions re-probe
`get_pinned_mode` against their own writes; `Abs.pinDescendants` and `Abs.unpinDescendants`
settle them once, by induction over the set.
-/

namespace RustIpfs.Kv

variable {Cid : Type}

/-- The pins of a store: for each CID at most one mode, with the value stored under its key. -/
abbrev PinTable (Cid : Type) := Cid → Option (PinMode × Bytes)

/-- The value a table puts under the key of `c` and `m`. -/
def PinTable.lookup (table : PinTable Cid) (c : Cid) (m : PinMode) : Option Bytes :=
  (table c).bind fun e => if e.1 = m then some e.2 else none

/-- The mode a table gives `c`. -/
def PinTable.mode (table : PinTable Cid) (c : Cid) : Option PinMode := (table c).map Prod.fst

@[simp] theorem PinTable.lookup_isSome {table : PinTable Cid} {c : Cid} {m : PinMode} :
    (table.lookup c m).isSome ↔ table.mode c = some m := by
  simp only [PinTable.lookup, PinTable.mode]
  rcases table c with _ | ⟨m', v⟩ <;> simp

theorem PinTable.lookup_eq_some {table : PinTable Cid} {c : Cid} {m : PinMode} {v : Bytes} :
    table.lookup c m = some v ↔ table c = some (m, v) := by
  simp only [PinTable.lookup]
  rcases table c with _ | ⟨m', v'⟩
  · simp
  · by_cases h : m' = m <;> simp [h]

section Set
variable [DecidableEq Cid]

/-- The table in which `c`'s pin is `e`. -/
def PinTable.set (table : PinTable Cid) (c : Cid) (e : Option (PinMode × Bytes)) : PinTable Cid :=
  Function.update table c e

@[simp] theorem PinTable.set_apply (table : PinTable Cid) (t c : Cid)
    (e : Option (PinMode × Bytes)) : table.set t e c = if c = t then e else table c := by
  simp [PinTable.set, Function.update_apply]

@[simp] theorem PinTable.lookup_set (table : PinTable Cid) (t c : Cid)
    (e : Option (PinMode × Bytes)) (m : PinMode) :
    (table.set t e).lookup c m =
      if c = t then e.bind fun e => if e.1 = m then some e.2 else none else table.lookup c m := by
  by_cases h : c = t <;> simp [PinTable.lookup, h]

@[simp] theorem PinTable.set_set (table : PinTable Cid) (t : Cid)
    (e e' : Option (PinMode × Bytes)) : (table.set t e).set t e' = table.set t e' :=
  Function.update_idem _ _ _

@[simp] theorem PinTable.mode_set (table : PinTable Cid) (t c : Cid)
    (e : Option (PinMode × Bytes)) :
    (table.set t e).mode c = if c = t then e.map Prod.fst else table.mode c := by
  by_cases h : c = t <;> simp [PinTable.mode, h]

end Set

/-- `tree` holds `table` at the pin keys: each pin key holds what the table says. Keys of other
forms are left open. -/
structure Stores [CidText Cid] (tree : Tree) (table : PinTable Cid) : Prop where
  lookup_getPinKey : ∀ c m, tree.lookup (getPinKey c m) = table.lookup c m

/-- `tree` stores `table`: it holds the table at the pin keys, and every key of the tree is a pin
key. -/
structure Abs [CidText Cid] (tree : Tree) (table : PinTable Cid) extends Stores tree table :
    Prop where
  pin_key : ∀ k ∈ tree, ∃ (c : Cid) (m : PinMode), k = getPinKey c m

/-- Two transaction results agree: both abort with the same message, or both commit, to states
related by `r`. -/
def Agree {α β : Type} (r : α → β → Prop) : Except String α → Except String β → Prop
  | .ok a, .ok b => r a b
  | .error e, .error e' => e = e'
  | _, _ => False

section Agree

variable {α β γ : Type} {r : α → β → Prop}

/-- A commit agrees only with a commit. -/
theorem Agree.ok_left {a : α} {y : Except String β} (h : Agree r (.ok a) y) :
    ∃ b, y = .ok b ∧ r a b := by
  cases y with
  | ok b => exact ⟨b, rfl, h⟩
  | error => exact h.elim

/-- Agreement survives mapping the second result, with a relation the map carries `r` to. -/
theorem Agree.map {r' : α → γ → Prop} {f : β → γ} (hf : ∀ a b, r a b → r' a (f b)) :
    ∀ {x : Except String α} {y : Except String β}, Agree r x y → Agree r' x (y.map f)
  | .ok _, .ok _, h => hf _ _ h
  | .error _, .error _, h => h
  | .ok _, .error _, h => h.elim
  | .error _, .ok _, h => h.elim

end Agree

variable [CidText Cid]

/-- `get_pinned_mode` unfolded: the probes in order. -/
theorem getPinnedMode_eq (tree : Tree) (c : Cid) :
    getPinnedMode tree c =
      if (tree.lookup (getPinKey c .direct)).isSome then some (.direct, getPinKey c .direct)
      else if (tree.lookup (getPinKey c .recursive)).isSome then
        some (.recursive, getPinKey c .recursive)
      else if (tree.lookup (getPinKey c .indirect)).isSome then
        some (.indirect, getPinKey c .indirect)
      else none := by
  simp only [getPinnedMode, List.findSome?]
  split_ifs <;> rfl

/-! ## A tree storing a table -/

/-- The empty tree stores the empty table. -/
theorem Abs.empty : Abs (∅ : Tree) (fun _ : Cid => none) :=
  ⟨⟨fun _ _ => by simp [PinTable.lookup]⟩, fun _ h => absurd h (AList.not_mem_empty _)⟩

namespace Stores

variable {tree : Tree} {table : PinTable Cid}

/-- On a tree holding a table, `get_pinned_mode` finds the table's mode and its key. -/
theorem getPinnedMode_eq (h : Stores tree table) (c : Cid) :
    getPinnedMode tree c = (table.mode c).map fun m => (m, getPinKey c m) := by
  rw [Kv.getPinnedMode_eq]
  simp only [h.lookup_getPinKey, PinTable.lookup_isSome]
  rcases table.mode c with _ | _ | _ | _ <;> simp

theorem isPinned_eq (h : Stores tree table) (c : Cid) : isPinned tree c = (table.mode c).isSome := by
  simp [isPinned, h.getPinnedMode_eq]

end Stores

/-! ## Writes -/

variable [DecidableEq Cid]

@[simp] theorem lookup_getPinKey_insert (tree : Tree) (t c : Cid) (m₀ m : PinMode) (v : Bytes) :
    (tree.insert (getPinKey t m₀) v).lookup (getPinKey c m) =
      if c = t ∧ m = m₀ then some v else tree.lookup (getPinKey c m) := by
  split_ifs with h
  · obtain ⟨rfl, rfl⟩ := h; exact AList.lookup_insert _
  · exact AList.lookup_insert_ne (mt getPinKey_inj.1 h)

@[simp] theorem lookup_getPinKey_erase (tree : Tree) (t c : Cid) (m₀ m : PinMode) :
    (tree.erase (getPinKey t m₀)).lookup (getPinKey c m) =
      if c = t ∧ m = m₀ then none else tree.lookup (getPinKey c m) := by
  split_ifs with h
  · obtain ⟨rfl, rfl⟩ := h; exact AList.lookup_erase _ _
  · exact AList.lookup_erase_ne (mt getPinKey_inj.1 h)

namespace Stores

variable {tree : Tree} {table : PinTable Cid}

/-- Writing the key of `c` and `m`, when `c` has no pin of another mode. -/
theorem insert (h : Stores tree table) {c : Cid} {m : PinMode} (v : Bytes)
    (hc : ∀ m', table.mode c = some m' → m' = m) :
    Stores (tree.insert (getPinKey c m) v) (table.set c (some (m, v))) := by
  refine ⟨fun c' m' => ?_⟩
  rw [lookup_getPinKey_insert, h.lookup_getPinKey, PinTable.lookup_set]
  by_cases hc' : c' = c
  · subst hc'
    by_cases hm : m' = m
    · simp [hm]
    · have : table.lookup c' m' = none := by
        rw [← Option.not_isSome_iff_eq_none, PinTable.lookup_isSome]
        exact fun h' => hm (hc _ h')
      simp [hm, this, Ne.symm hm]
  · simp [hc']

/-- Deleting the key of `c` and `m`, where `c` is pinned with `m`. -/
theorem erase (h : Stores tree table) {c : Cid} {m : PinMode} (hc : table.mode c = some m) :
    Stores (tree.erase (getPinKey c m)) (table.set c none) := by
  refine ⟨fun c' m' => ?_⟩
  rw [lookup_getPinKey_erase, h.lookup_getPinKey, PinTable.lookup_set]
  by_cases hc' : c' = c
  · subst hc'
    by_cases hm : m' = m
    · simp [hm]
    · have : table.lookup c' m' = none := by
        rw [← Option.not_isSome_iff_eq_none, PinTable.lookup_isSome, hc]
        exact fun h' => hm (Option.some.inj h').symm
      simp [hm, this]
  · simp [hc']

/-- Deleting the key of a mode `c` is not pinned with changes nothing the table sees. -/
theorem erase_absent (h : Stores tree table) {c : Cid} {m : PinMode}
    (hc : table.mode c ≠ some m) : Stores (tree.erase (getPinKey c m)) table := by
  refine ⟨fun c' m' => ?_⟩
  rw [lookup_getPinKey_erase, h.lookup_getPinKey]
  split_ifs with hcm
  · obtain ⟨rfl, rfl⟩ := hcm
    rw [eq_comm, ← Option.not_isSome_iff_eq_none, PinTable.lookup_isSome]
    exact hc
  · rfl

end Stores

namespace Abs

variable {tree : Tree} {table : PinTable Cid}

/-- Writing a pin key keeps every key a pin key. -/
theorem insert (h : Abs tree table) {c : Cid} {m : PinMode} (v : Bytes)
    (hc : ∀ m', table.mode c = some m' → m' = m) :
    Abs (tree.insert (getPinKey c m) v) (table.set c (some (m, v))) where
  toStores := h.toStores.insert v hc
  pin_key k hk := by
    rcases (AList.mem_insert _).1 hk with rfl | hk
    · exact ⟨c, m, rfl⟩
    · exact h.pin_key k hk

theorem erase (h : Abs tree table) {c : Cid} {m : PinMode} (hc : table.mode c = some m) :
    Abs (tree.erase (getPinKey c m)) (table.set c none) :=
  ⟨h.toStores.erase hc, fun k hk => h.pin_key k (AList.mem_erase.1 hk).2⟩

theorem erase_absent (h : Abs tree table) {c : Cid} {m : PinMode} (hc : table.mode c ≠ some m) :
    Abs (tree.erase (getPinKey c m)) table :=
  ⟨h.toStores.erase_absent hc, fun k hk => h.pin_key k (AList.mem_erase.1 hk).2⟩

end Abs

/-! ## The mutators on the table -/

namespace PinTable

variable {table : PinTable Cid}

/-- `insert_direct_pin` on the table: fails on a recursive pin, keeps a direct one, and makes any
other CID direct, dropping an indirect pin. -/
def insertDirectPin (table : PinTable Cid) (target : Cid) : Except String (PinTable Cid) :=
  match table.mode target with
  | some .recursive => .error "already pinned recursively"
  | some .direct => .ok table
  | _ => .ok (table.set target (some (.direct, directValue)))

/-- The loop of `insert_recursive_pin` on the table: each unpinned member of `set` becomes an
indirect pin from `target`. -/
def pinDescendants (table : PinTable Cid) (target : Cid) (set : List Cid) : PinTable Cid :=
  fun c => if c ∈ set ∧ table.mode c = none then some (.indirect, indirectValue target) else table c

/-- `insert_recursive_pin` on the table: nothing if `target` is recursive, otherwise `target`
becomes recursive and its unpinned references indirect. -/
def insertRecursivePin (table : PinTable Cid) (target : Cid) (set : List Cid) : PinTable Cid :=
  if table.mode target = some .recursive then table
  else (table.set target (some (.recursive, recursiveValue))).pinDescendants target set

/-- `remove_direct_pin` on the table: fails unless `target` is direct or recursive, and unpins it
only if it is direct. -/
def removeDirectPin (table : PinTable Cid) (target : Cid) : Except String (PinTable Cid) :=
  match table.mode target with
  | some .direct => .ok (table.set target none)
  | some .recursive => .ok table
  | _ => .error "not pinned or pinned indirectly"

/-- The loop of `remove_recursive_pin` on the table: each indirect member of `set` is unpinned. -/
def unpinDescendants (table : PinTable Cid) (set : List Cid) : PinTable Cid :=
  fun c => if c ∈ set ∧ table.mode c = some .indirect then none else table c

/-- `remove_recursive_pin` on the table: fails unless `target` is direct or recursive, unpins it
only if it is recursive, and unpins the indirect members of `set`. -/
def removeRecursivePin (table : PinTable Cid) (target : Cid) (set : List Cid) :
    Except String (PinTable Cid) :=
  match table.mode target with
  | some .recursive => .ok ((table.set target none).unpinDescendants set)
  | some .direct => .ok (table.unpinDescendants set)
  | _ => .error "not pinned or pinned indirectly"

@[simp] theorem mode_pinDescendants (target c : Cid) (set : List Cid) :
    (table.pinDescendants target set).mode c =
      if c ∈ set ∧ table.mode c = none then some .indirect else table.mode c := by
  simp only [pinDescendants, mode]
  split_ifs <;> simp_all

omit [CidText Cid] in
@[simp] theorem mode_unpinDescendants (c : Cid) (set : List Cid) :
    (table.unpinDescendants set).mode c =
      if c ∈ set ∧ table.mode c = some .indirect then none else table.mode c := by
  simp only [unpinDescendants, mode]
  split_ifs <;> simp_all

/-- One turn of `insert_recursive_pin`'s loop, then the rest. -/
theorem pinDescendants_cons (target d : Cid) (ds : List Cid) :
    table.pinDescendants target (d :: ds) =
      (if (table.mode d).isSome then table
        else table.set d (some (.indirect, indirectValue target))).pinDescendants target ds := by
  funext c
  split_ifs with hd <;> by_cases hc : c = d
  · subst hc; simp [pinDescendants, Option.isSome_iff_ne_none.1 hd]
  · simp [pinDescendants, hc]
  · subst hc; simp [pinDescendants, Option.not_isSome_iff_eq_none.1 hd]
  · simp [pinDescendants, hc]

omit [CidText Cid] in
/-- One turn of `remove_recursive_pin`'s loop, then the rest. -/
theorem unpinDescendants_cons (d : Cid) (ds : List Cid) :
    table.unpinDescendants (d :: ds) =
      (if table.mode d = some .indirect then table.set d none else table).unpinDescendants ds := by
  funext c
  split_ifs with hd <;> by_cases hc : c = d
  · subst hc; simp [unpinDescendants, hd]
  · simp [unpinDescendants, hc]
  · subst hc; simp [unpinDescendants, hd]
  · simp [unpinDescendants, hc]

end PinTable

end RustIpfs.Kv
