import RustIpfs.Repo.Table

/-!
# The transactions simulate the table operations

Each transaction body of `src/repo/kv.rs`, run on a tree that stores a pin table, commits a tree
storing the table operation's result or aborts with the table operation's message
(`insertDirectPin_sim`, `insertRecursivePinTx_sim`, `removeDirectPin_sim`,
`removeRecursivePinTx_sim`). The two loops are simulated first, by induction over the collected
set, one turn at a time. The proofs hold for any relation that the writes keep (`Simulates`): for
`Stores`, over any tree, and for `Abs`, over trees with pin keys only.
-/

namespace RustIpfs.Kv

variable {Cid : Type} [DecidableEq Cid] [CidText Cid] {tree : Tree} {table : PinTable Cid}

omit [DecidableEq Cid] in
/-- `is_not_pinned_or_pinned_indirectly` on a tree holding a table. -/
theorem Stores.isNotPinnedOrPinnedIndirectly_eq (h : Stores tree table) (c : Cid) :
    isNotPinnedOrPinnedIndirectly tree c =
      match table.mode c with
      | some .direct | some .recursive => false
      | _ => true := by
  simp only [isNotPinnedOrPinnedIndirectly, h.getPinnedMode_eq]
  rcases table.mode c with _ | _ | _ | _ <;> rfl

/-- A relation between trees and tables that implies `Stores` and that the three writes of the
transactions keep: `Stores` itself, and `Abs`. The simulation is proved once for any such
relation. -/
structure Simulates (R : Tree → PinTable Cid → Prop) : Prop where
  stores : ∀ {tree table}, R tree table → Stores tree table
  insert : ∀ {tree table c m} (v : Bytes), R tree table →
    (∀ m', table.mode c = some m' → m' = m) →
    R (tree.insert (getPinKey c m) v) (table.set c (some (m, v)))
  erase : ∀ {tree table c m}, R tree table → table.mode c = some m →
    R (tree.erase (getPinKey c m)) (table.set c none)
  erase_absent : ∀ {tree table c m}, R tree table → table.mode c ≠ some m →
    R (tree.erase (getPinKey c m)) table

theorem Stores.simulates : Simulates (@Stores Cid _) :=
  ⟨id, fun v h hc => h.insert v hc, fun h hc => h.erase hc, fun h hc => h.erase_absent hc⟩

theorem Abs.simulates : Simulates (@Abs Cid _) :=
  ⟨Abs.toStores, fun v h hc => h.insert v hc, fun h hc => h.erase hc,
    fun h hc => h.erase_absent hc⟩

namespace Simulates

variable {R : Tree → PinTable Cid → Prop} (hR : Simulates R)
include hR

/-- The loop of `insert_recursive_pin` simulates its table form. -/
theorem pinDescendants (h : R tree table) (target : Cid) (set : List Cid) :
    R (Kv.pinDescendants target tree set) (table.pinDescendants target set) := by
  induction set generalizing tree table with
  | nil => convert h using 1
  | cons d ds ih =>
    rw [PinTable.pinDescendants_cons]
    apply ih
    dsimp only
    rw [(hR.stores h).getPinnedMode_eq, Option.isSome_map']
    split_ifs with hd
    · exact h
    · exact hR.insert _ h fun m hm => by simp [hm] at hd

/-- The loop of `remove_recursive_pin` simulates its table form. -/
theorem unpinDescendants (h : R tree table) (set : List Cid) :
    R (Kv.unpinDescendants tree set) (table.unpinDescendants set) := by
  induction set generalizing tree table with
  | nil => convert h using 1
  | cons d ds ih =>
    rw [PinTable.unpinDescendants_cons]
    apply ih
    dsimp only
    rw [(hR.stores h).getPinnedMode_eq]
    rcases hd : table.mode d with _ | _ | _ | _
    · exact h
    · exact h
    · exact h
    · exact hR.erase h hd

/-! ## The four transactions -/

/-- `insert_direct_pin` simulates its table operation. Reference: `insert_direct_pin`
(`src/repo/kv.rs:114-151`). -/
theorem insertDirectPin_sim (h : R tree table) (target : Cid) :
    Agree R (insertDirectPin tree target) (table.insertDirectPin target) := by
  simp only [insertDirectPin, PinTable.insertDirectPin, (hR.stores h).getPinnedMode_eq]
  rcases hm : table.mode target with _ | _ | _ | _
  · exact hR.insert _ h (by simp [hm])
  · exact h
  · rfl
  · simpa using hR.insert (c := target) (m := .direct) directValue (hR.erase h hm) (by simp)

/-- The transaction of `insert_recursive_pin` simulates its table operation. Reference:
`insert_recursive_pin` (`src/repo/kv.rs:171-206`). -/
theorem insertRecursivePinTx_sim (h : R tree table) (target : Cid) (set : List Cid) :
    R (insertRecursivePinTx tree target set) (table.insertRecursivePin target set) := by
  simp only [insertRecursivePinTx, insertRecursivePinTx.pinTarget, PinTable.insertRecursivePin,
    (hR.stores h).getPinnedMode_eq]
  rcases hm : table.mode target with _ | _ | _ | _
  · exact hR.pinDescendants (hR.insert _ h (by simp [hm])) _ _
  · simpa using hR.pinDescendants (hR.insert (c := target) (m := .recursive) recursiveValue
      (hR.erase h hm) (by simp)) target set
  · exact h
  · simpa using hR.pinDescendants (hR.insert (c := target) (m := .recursive) recursiveValue
      (hR.erase h hm) (by simp)) target set

/-- `remove_direct_pin` simulates its table operation. Reference: `remove_direct_pin`
(`src/repo/kv.rs:224-233`). -/
theorem removeDirectPin_sim (h : R tree table) (target : Cid) :
    Agree R (removeDirectPin tree target) (table.removeDirectPin target) := by
  simp only [removeDirectPin, PinTable.removeDirectPin,
    (hR.stores h).isNotPinnedOrPinnedIndirectly_eq]
  rcases hm : table.mode target with _ | _ | _ | _
  · rfl
  · exact hR.erase h hm
  · exact hR.erase_absent h (by simp [hm])
  · rfl

/-- The transaction of `remove_recursive_pin` simulates its table operation. Reference:
`remove_recursive_pin` (`src/repo/kv.rs:258-282`). -/
theorem removeRecursivePinTx_sim (h : R tree table) (target : Cid) (set : List Cid) :
    Agree R (removeRecursivePinTx tree target set) (table.removeRecursivePin target set) := by
  simp only [removeRecursivePinTx, PinTable.removeRecursivePin,
    (hR.stores h).isNotPinnedOrPinnedIndirectly_eq]
  rcases hm : table.mode target with _ | _ | _ | _
  · rfl
  · exact hR.unpinDescendants (hR.erase_absent h (by simp [hm])) set
  · exact hR.unpinDescendants (hR.erase h hm) set
  · rfl

end Simulates

end RustIpfs.Kv
