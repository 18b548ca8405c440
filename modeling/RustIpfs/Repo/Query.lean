import RustIpfs.Repo.Refinement
import RustIpfs.Repo.Invariants

/-!
# `query` on reachable stores

`query` probes each id in one transaction and aborts if the value of an indirect pin does not
parse as a CID. The spec's operations only ever write an indirect pin whose source is a CID
(`PinOp.spec_sourced`), so on every reachable store every indirect value parses
(`Reachable.sourced`, through the refinement of `Refinement`), the abort is unreachable, and
`query` answers with the list the spec describes (`reachable_query`).
-/

namespace RustIpfs.Kv

variable {Cid : Type} [CidText Cid]

/-- Every indirect pin of the map has a source. -/
def Sourced (pins : PinMap Cid) : Prop := ∀ d source, pins d = some (.indirect source) → source.isSome

section Spec

variable [DecidableEq Cid] {pins pins' : PinMap Cid}

omit [CidText Cid] [DecidableEq Cid] in
/-- A map whose every entry is an entry of a sourced map, not indirect, or indirect from a CID is
sourced. -/
theorem Sourced.of_entries (h : Sourced pins)
    (h' : ∀ d, pins' d = none ∨ pins' d = pins d ∨ (pins' d).any Pin.isIndirect = false ∨
      ∃ c, pins' d = some (.indirect (some c))) : Sourced pins' := fun d source hd => by
  rcases h' d with h' | h' | h' | ⟨c, h'⟩ <;> rw [hd] at h'
  · cases h'
  · exact h d source h'.symm
  · cases h'
  · cases h'; rfl

omit [CidText Cid] in
/-- The spec's operations keep every indirect pin sourced: the only indirect pins they write come
from a CID. -/
theorem PinOp.spec_sourced [LinearOrder Cid] [CidText Cid] {op : PinOp Cid}
    (h : Sourced pins) (hop : op.spec pins = .ok pins') : Sourced pins' := by
  cases op with
  | insertDirectPin t =>
    simp only [PinOp.spec, PinMap.insertDirectPin] at hop
    split_ifs at hop
    cases hop
    exact h.of_entries fun d => by
      by_cases hd : d = t <;> simp [Function.update_apply, hd, Pin.isIndirect]
  | insertRecursivePin t referenced =>
    simp only [PinOp.spec] at hop
    cases hr : referenced.mapM id <;> rw [hr] at hop <;> cases hop
    refine h.of_entries fun d => ?_
    simp only [PinMap.insertRecursivePin]
    split_ifs
    · exact .inr (.inl rfl)
    · dsimp only
      split_ifs <;> simp [Pin.isIndirect]
  | removeDirectPin t =>
    simp only [PinOp.spec, PinMap.removeDirectPin] at hop
    split at hop <;> cases hop
    exact h.of_entries fun d => by split_ifs <;> simp
  | removeRecursivePin t referenced =>
    simp only [PinOp.spec] at hop
    cases hr : referenced.mapM id <;> rw [hr] at hop
    · cases hop
    · simp only [Except.bind, PinMap.removeRecursivePin] at hop
      split at hop <;> cases hop
      exact h.of_entries fun d => by split_ifs <;> simp

end Spec

section Reachable

variable [LinearOrder Cid] {allowed : PinOp Cid → Prop} {tree : Tree}

/-- A reachable tree has at most one key per CID, and every indirect pin of its map has a
source. -/
theorem Reachable.sourced (hr : Reachable allowed tree) :
    AtMostOnePinKey Cid tree ∧ Sourced (pinsOf tree : PinMap Cid) := by
  induction hr with
  | empty =>
    refine ⟨Abs.empty.atMostOnePinKey, fun d s hd => ?_⟩
    rw [pinsOf, Abs.empty.pinTable_eq] at hd
    cases hd
  | step op _ _ hrun ih =>
    have href := PinOp.run_refines ih.1 op
    rw [hrun] at href
    obtain ⟨pins', hspec, rfl, hone⟩ := href.ok_left
    exact ⟨hone, PinOp.spec_sourced ih.2 hspec⟩

end Reachable

/-! ## `query` -/

/-- The answer the spec gives `query` for one id: nothing unless `get_pinned_mode` finds a mode
the filter admits; then `Direct`, `Recursive(0)`, or `IndirectFrom(r)` for `r` the CID parsed from
the value of the id's indirect key. -/
def queryKind (tree : Tree) (requirement : Option PinMode) (id : Cid) : Option (PinKind Cid) :=
  match getPinnedMode tree id with
  | some (m, _) =>
    if (PinModeRequirement.ofOption requirement).matches m then
      match m with
      | .direct => some .direct
      | .recursive => some (.recursive 0)
      | .indirect =>
        ((tree.lookup (getPinKey id .indirect)).bind cidFromIndirectValue).map .indirectFrom
    else none
  | none => none

/-- `query(ids, filter)` as the spec states it: the ids in order, each kept with its answer if it
has one. -/
def querySpec (tree : Tree) (ids : List Cid) (requirement : Option PinMode) :
    List (Cid × PinKind Cid) :=
  ids.filterMap fun id => (queryKind tree requirement id).map (id, ·)

/-- `query` answers from the per-id answers of its transaction, zipped back with the ids. -/
theorem query_eq_of_forall {tree : Tree} {requirement : Option PinMode}
    {kind : Cid → Option (PinKind Cid)}
    (h : ∀ id, queryOne tree (PinModeRequirement.ofOption requirement) id = .ok (kind id)) :
    ∀ ids, query tree ids requirement = .ok (ids.filterMap fun id => (kind id).map (id, ·))
  | [] => rfl
  | id :: ids => by
    have ih := query_eq_of_forall h ids
    simp only [query, List.mapM_cons, h] at ih ⊢
    revert ih
    cases ids.mapM (queryOne tree (PinModeRequirement.ofOption requirement)) with
    | error => intro ih; cases ih
    | ok modes =>
      intro ih
      show Except.ok (((id :: ids).zip (kind id :: modes)).filterMap _) = _
      rw [List.zip_cons_cons, List.filterMap_cons, List.filterMap_cons, Except.ok.inj ih]

/-- On a tree with at most one key per CID whose indirect pins all have sources, the transaction
answers each id as the spec says. -/
theorem queryOne_eq {tree : Tree} (hone : AtMostOnePinKey Cid tree)
    (hsrc : Sourced (pinsOf tree : PinMap Cid)) (requirement : Option PinMode) (id : Cid) :
    queryOne tree (PinModeRequirement.ofOption requirement) id =
      .ok (queryKind tree requirement id) := by
  have hs := hone.stores
  have hsrc' := hsrc id
  simp only [pinsOf, PinTable.pins, hs.lookup_getPinKey] at hsrc'
  simp only [queryOne, queryKind, hs.getPinnedMode_eq, hs.lookup_getPinKey]
  rcases hm : (pinTable tree : PinTable Cid) id with _ | ⟨_ | _ | _, v⟩ <;>
    simp only [PinTable.mode, hm, Option.map] <;> split_ifs <;> try rfl
  obtain ⟨r, hr⟩ := Option.isSome_iff_exists.1 (hsrc' _ (by rw [hm]; rfl))
  simp [PinTable.lookup, hs.lookup_getPinKey, hm, hr]

/-- **`query` on reachable stores.** On every reachable store, for every list of ids, duplicates
allowed, and every filter, every indirect value parses as a CID, so `query` never aborts: it
returns the ids in order, each kept if `get_pinned_mode` finds a mode the filter admits, paired
with `Direct`, `Recursive(0)`, or `IndirectFrom(r)` for `r` parsed from the value of its indirect
key. Reference: `query` (`src/repo/kv.rs:382-443`), `cid_from_indirect_value` (`:462-466`),
`get_pinned_mode` (`:499-512`). -/
theorem reachable_query [LinearOrder Cid] {allowed : PinOp Cid → Prop} {tree : Tree}
    (hr : Reachable allowed tree) (ids : List Cid) (requirement : Option PinMode) :
    (∀ (id : Cid) v, tree.lookup (getPinKey id .indirect) = some v →
      (cidFromIndirectValue v : Option Cid).isSome) ∧
    query tree ids requirement = .ok (querySpec tree ids requirement) := by
  obtain ⟨hone, hsrc⟩ := hr.sourced
  refine ⟨fun id v hv => ?_, query_eq_of_forall (queryOne_eq hone hsrc requirement) ids⟩
  rw [hone.stores.lookup_getPinKey, PinTable.lookup_eq_some] at hv
  exact hsrc id _ (by simp [pinsOf, PinTable.pins, hv, Pin.ofEntry])

theorem reachable_query_rootZeroPinned :
    Reachable (PinOp.Follows sharedRefs) rootZeroPinned ∧
    (∀ (id : Fin 3) v, rootZeroPinned.lookup (getPinKey id .indirect) = some v →
      (cidFromIndirectValue v : Option (Fin 3)).isSome) ∧
    query rootZeroPinned [(2 : Fin 3), 0, 1, 2] none =
      .ok (querySpec rootZeroPinned [(2 : Fin 3), 0, 1, 2] none) :=
  ⟨rootZeroPinned_reachable, reachable_query rootZeroPinned_reachable _ _⟩

end RustIpfs.Kv
