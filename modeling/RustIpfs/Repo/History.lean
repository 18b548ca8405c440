import RustIpfs.Repo.Refinement

/-!
# Runs of calls against the abstract map

`Refinement` relates one call of a mutator to the spec's operation on the abstract map. Here the
relation is carried along whole runs: any sequence of calls, each committing or aborting, from a
tree with at most one key per CID, leaves the tree whose map is the spec's map after the same
sequence of operations, each failing one skipped (`run_refines_specRun`). What the spec's
operations do to one CID is then read off the map, one operation at a time, and holds of every run
of the code: a recursive pin is undone only by `remove_recursive_pin` of that CID, and a direct pin
is unpinned only by a removal naming it (`run_keeps_pins`).

On the table a tree stores, pinning an unpinned CID and then removing that pin gives back the
table, for the recursive pair when no reference other than the root was indirectly pinned; on a
reachable tree that means every key reads as before (`reachable_pin_unpin_roundtrip`).
-/

namespace RustIpfs.Kv

variable {Cid : Type} [LinearOrder Cid]

namespace PinOp

/-- The spec's map after a call: the operation's result, or the same map if it fails. -/
def specApply (op : PinOp Cid) (pins : PinMap Cid) : PinMap Cid :=
  match op.spec pins with
  | .ok pins' => pins'
  | .error _ => pins

/-- The CID a call names. -/
def target : PinOp Cid → Cid
  | insertDirectPin t | insertRecursivePin t _ | removeDirectPin t | removeRecursivePin t _ => t

/-- The mode of the pin a call removes from its target, if it is a removal. -/
def removedMode : PinOp Cid → Option PinMode
  | removeDirectPin _ => some .direct
  | removeRecursivePin _ _ => some .recursive
  | _ => none

/-! ## What one operation does to one CID -/

variable {pins : PinMap Cid} {c : Cid}

/-- Only `remove_recursive_pin` of a recursively pinned CID undoes its pin. -/
theorem specApply_recursive (op : PinOp Cid) (hc : pins c = some .recursive)
    (hop : op.target = c → op.removedMode ≠ some .recursive) :
    op.specApply pins c = some .recursive := by
  cases op with
  | insertDirectPin t =>
    by_cases ht : t = c
    · subst ht; simp [specApply, spec, PinMap.insertDirectPin, hc]
    · simp only [specApply, spec, PinMap.insertDirectPin]
      split_ifs
      · exact hc
      · exact (Function.update_noteq (Ne.symm ht) _ _).trans hc
  | insertRecursivePin t referenced =>
    simp only [specApply, spec]
    cases referenced.mapM id
    · exact hc
    · simp only [Except.map, PinMap.insertRecursivePin]
      split_ifs <;> simp_all
  | removeDirectPin t =>
    simp only [specApply, spec, PinMap.removeDirectPin]
    split <;> simp [hc]
  | removeRecursivePin t referenced =>
    have ht : t ≠ c := fun ht => hop ht rfl
    simp only [specApply, spec]
    cases referenced.mapM id
    · exact hc
    · simp only [Except.bind, PinMap.removeRecursivePin]
      split <;> simp [hc, Ne.symm ht, Pin.isIndirect]

/-- A directly or recursively pinned CID stays so under every operation that removes no pin of
it: the only change is from direct to recursive. -/
theorem specApply_pinned (op : PinOp Cid) (hc : pins c = some .direct ∨ pins c = some .recursive)
    (hop : op.target = c → op.removedMode = none) :
    op.specApply pins c = some .direct ∨ op.specApply pins c = some .recursive := by
  cases op with
  | insertDirectPin t =>
    simp only [specApply, spec, PinMap.insertDirectPin]
    by_cases ht : t = c
    · subst ht; split_ifs <;> simp_all
    · split_ifs
      · exact hc
      · dsimp only; rwa [Function.update_noteq (Ne.symm ht)]
  | insertRecursivePin t referenced =>
    simp only [specApply, spec]
    cases referenced.mapM id
    · exact hc
    · simp only [Except.map, PinMap.insertRecursivePin]
      by_cases hct : c = t
      · subst hct; split_ifs <;> simp_all
      · rcases hc with hc | hc <;> split_ifs <;> simp_all
  | removeDirectPin t =>
    have ht : t ≠ c := fun ht => nomatch hop ht
    simp only [specApply, spec, PinMap.removeDirectPin]
    split <;> simp [hc, Ne.symm ht]
  | removeRecursivePin t referenced =>
    have ht : t ≠ c := fun ht => nomatch hop ht
    simp only [specApply, spec]
    cases referenced.mapM id
    · exact hc
    · simp only [Except.bind, PinMap.removeRecursivePin]
      split
      · exact hc
      · exact hc
      · rcases hc with hc | hc <;> simp [hc, Ne.symm ht, Pin.isIndirect]

end PinOp

/-! ## Runs -/

/-- The spec's map after a run of operations, each failing one skipped. -/
def specRun (pins : PinMap Cid) (ops : List (PinOp Cid)) : PinMap Cid :=
  ops.foldl (fun p op => op.specApply p) pins

/-- A recursive pin persists along a spec run with no `remove_recursive_pin` of its CID; a direct
pin stays direct or recursive along one with no removal of its CID. -/
theorem specRun_keeps_pins (c : Cid) : ∀ (ops : List (PinOp Cid)) (pins : PinMap Cid),
    (pins c = some .recursive →
      (∀ op ∈ ops, op.target = c → op.removedMode ≠ some .recursive) →
      specRun pins ops c = some .recursive) ∧
    (pins c = some .direct ∨ pins c = some .recursive →
      (∀ op ∈ ops, op.target = c → op.removedMode = none) →
      specRun pins ops c = some .direct ∨ specRun pins ops c = some .recursive)
  | [], _ => ⟨fun hc _ => hc, fun hc _ => hc⟩
  | op :: ops, _ =>
    ⟨fun hc hops => (specRun_keeps_pins c ops _).1
        (op.specApply_recursive hc (hops op (List.mem_cons_self _ _)))
        fun op' hop' => hops op' (List.mem_cons_of_mem _ hop'),
      fun hc hops => (specRun_keeps_pins c ops _).2
        (op.specApply_pinned hc (hops op (List.mem_cons_self _ _)))
        fun op' hop' => hops op' (List.mem_cons_of_mem _ hop')⟩

section Calls

variable [CidText Cid] {tree : Tree}

/-- A call on a tree with at most one key per CID leaves the tree whose map is the spec's map after
the operation, and again at most one key per CID. -/
theorem PinOp.apply_refines (h : AtMostOnePinKey Cid tree) (op : PinOp Cid) :
    pinsOf (op.apply tree) = op.specApply (pinsOf tree) ∧
      AtMostOnePinKey Cid (op.apply tree) := by
  have href := run_refines h op
  unfold apply specApply
  rcases hr : op.run tree with e | tree' <;> rcases hs : op.spec (pinsOf tree) with e' | pins' <;>
    rw [hr, hs] at href
  · exact ⟨rfl, h⟩
  · exact href.elim
  · exact href.elim
  · exact href

/-- The tree after a run of calls, each committing or aborting. -/
def runCalls (tree : Tree) (ops : List (PinOp Cid)) : Tree :=
  ops.foldl (fun t op => op.apply t) tree

/-- **Runs refine the spec's runs.** From any tree with at most one key per CID, whatever other
keys it holds, every sequence of calls of the four mutators, on any CIDs and any references
streams, each committing or aborting, leaves a tree with at most one key per CID whose map is the
spec's map after the same sequence of operations from the tree's map, each failing one skipped.
Reference: the four mutators of `src/repo/kv.rs:114-287`. -/
theorem run_refines_specRun (h : AtMostOnePinKey Cid tree) (ops : List (PinOp Cid)) :
    pinsOf (runCalls tree ops) = specRun (pinsOf tree) ops ∧
      AtMostOnePinKey Cid (runCalls tree ops) := by
  induction ops generalizing tree with
  | nil => exact ⟨rfl, h⟩
  | cons op ops ih =>
    obtain ⟨hpins, hone⟩ := op.apply_refines h
    have := ih hone
    rwa [hpins] at this

/-- A run that pins `0` recursively over `1` and `2`, then tries to unpin `1` directly (and fails),
then pins `2` directly. -/
def pinRun : List (PinOp (Fin 3)) :=
  [.insertRecursivePin 0 [.ok 1, .ok 2], .removeDirectPin 1, .insertDirectPin 2]

theorem run_refines_specRun_pinRun :
    AtMostOnePinKey (Fin 3) ∅ ∧
    pinsOf (runCalls ∅ pinRun) = specRun (pinsOf ∅) pinRun ∧
      AtMostOnePinKey (Fin 3) (runCalls ∅ pinRun) :=
  have h : AtMostOnePinKey (Fin 3) ∅ := by unfold AtMostOnePinKey; decide
  ⟨h, run_refines_specRun h _⟩

/-- **Pins persist along runs.** From any tree with at most one key per CID, along every sequence
of calls: a CID pinned recursively stays pinned recursively unless one of the calls is
`remove_recursive_pin` of that CID; a CID pinned directly stays pinned, directly or recursively,
unless one of the calls is `remove_direct_pin` or `remove_recursive_pin` of that CID. In
particular `remove_direct_pin` never undoes a recursive pin, `remove_recursive_pin` never a direct
one, and no call on another CID, nor `insert_recursive_pin` with the CID among its references,
unpins it. Reference: `src/repo/kv.rs:114-287`, `get_pinned_mode` and
`is_not_pinned_or_pinned_indirectly` (`:499-522`). -/
theorem run_keeps_pins (h : AtMostOnePinKey Cid tree) (ops : List (PinOp Cid)) (c : Cid) :
    (pinsOf tree c = some .recursive →
      (∀ op ∈ ops, op.target = c → op.removedMode ≠ some .recursive) →
      pinsOf (runCalls tree ops) c = some .recursive) ∧
    (pinsOf tree c = some .direct →
      (∀ op ∈ ops, op.target = c → op.removedMode = none) →
      pinsOf (runCalls tree ops) c = some .direct ∨
        pinsOf (runCalls tree ops) c = some .recursive) := by
  rw [(run_refines_specRun h ops).1]
  exact ⟨(specRun_keeps_pins c ops _).1, fun hc => (specRun_keeps_pins c ops _).2 (.inl hc)⟩

/-- The store with `1` pinned directly. -/
def directOne : Tree := (PinOp.insertDirectPin (1 : Fin 3)).apply ∅

/-- The store with `1` pinned directly and `0` pinned recursively over `{2}`. -/
def zeroAndOne : Tree := (PinOp.insertRecursivePin (0 : Fin 3) [.ok 2]).apply directOne

/-- Calls on `0` and `1` that remove neither pin: `insert_direct_pin(0)` and
`remove_direct_pin(0)` on the recursive root `0`, and `insert_recursive_pin(1, {0, 2})`, which
turns the direct pin of `1` into a recursive one over pinned members. -/
def keepRun : List (PinOp (Fin 3)) :=
  [.insertDirectPin 0, .insertRecursivePin 1 [.ok 0, .ok 2], .removeDirectPin 0]

theorem run_keeps_pins_zeroAndOne :
    AtMostOnePinKey (Fin 3) zeroAndOne ∧
    pinsOf zeroAndOne (0 : Fin 3) = some .recursive ∧
    (∀ op ∈ keepRun, op.target = 0 → op.removedMode ≠ some .recursive) ∧
    pinsOf (runCalls zeroAndOne keepRun) (0 : Fin 3) = some .recursive ∧
    pinsOf zeroAndOne (1 : Fin 3) = some .direct ∧
    (∀ op ∈ keepRun, op.target = 1 → op.removedMode = none) ∧
    (pinsOf (runCalls zeroAndOne keepRun) (1 : Fin 3) = some .direct ∨
      pinsOf (runCalls zeroAndOne keepRun) (1 : Fin 3) = some .recursive) :=
  have h : AtMostOnePinKey (Fin 3) zeroAndOne := by unfold AtMostOnePinKey; decide
  have h₀ : pinsOf zeroAndOne (0 : Fin 3) = some .recursive := by decide
  have hops₀ : ∀ op ∈ keepRun, op.target = 0 → op.removedMode ≠ some .recursive := by decide
  have h₁ : pinsOf zeroAndOne (1 : Fin 3) = some .direct := by decide
  have hops₁ : ∀ op ∈ keepRun, op.target = 1 → op.removedMode = none := by decide
  ⟨h, h₀, hops₀, (run_keeps_pins h keepRun 0).1 h₀ hops₀, h₁, hops₁,
    (run_keeps_pins h keepRun 1).2 h₁ hops₁⟩

/-! ## Pinning and unpinning again -/

namespace PinTable

variable {table : PinTable Cid} {c : Cid}

/-- `remove_recursive_pin` undoes `insert_recursive_pin` of an unpinned CID over the same set, when
no other member of the set was pinned indirectly: the loop that unpins the set's indirect pins
takes back what the loop that pinned them added. -/
theorem removeRecursivePin_insertRecursivePin (set : List Cid) (hc : table.mode c = none)
    (hset : ∀ d ∈ set, d ≠ c → table.mode d ≠ some .indirect) :
    (table.insertRecursivePin c set).removeRecursivePin c set = .ok table := by
  have hT : (table.insertRecursivePin c set).mode c = some .recursive := by
    simp [insertRecursivePin, hc]
  simp only [removeRecursivePin, hT, Except.ok.injEq]
  funext d
  by_cases hdc : d = c
  · subst hdc; simp [unpinDescendants, Option.map_eq_none'.1 hc]
  · simp only [unpinDescendants, insertRecursivePin, pinDescendants, hc, hdc, mode_set,
      set_apply, mode_pinDescendants, if_false]
    rcases hm : table.mode d with _ | m
    · simp [pinDescendants, hdc, hm, Option.map_eq_none'.1 hm]
    · have := fun hd => hset d hd hdc
      by_cases hd : d ∈ set <;> simp_all [pinDescendants]

end PinTable

namespace PinOp

/-- `remove_direct_pin` undoes `insert_direct_pin` of an unpinned CID. -/
theorem applyTable_removeDirectPin_insertDirectPin {table : PinTable Cid} {c : Cid}
    (hc : table.mode c = none) :
    (removeDirectPin c).applyTable ((insertDirectPin c).applyTable table) = table := by
  simp [applyTable, runTable, PinTable.insertDirectPin, PinTable.removeDirectPin, hc]
  exact Function.update_eq_self_iff.2 (Option.map_eq_none'.1 hc).symm

/-- `remove_recursive_pin` undoes `insert_recursive_pin` of an unpinned CID with the same references
stream, when no other reference was pinned indirectly; a stream that fails fails both calls. -/
theorem applyTable_removeRecursivePin_insertRecursivePin {table : PinTable Cid} {c : Cid}
    (referenced : References Cid) (hc : table.mode c = none)
    (hrefs : ∀ set, collectReferences referenced = .ok set →
      ∀ d ∈ set, d ≠ c → table.mode d ≠ some .indirect) :
    (removeRecursivePin c referenced).applyTable
      ((insertRecursivePin c referenced).applyTable table) = table := by
  simp only [applyTable, runTable]
  rcases hS : collectReferences referenced with e | set
  · rfl
  · simp [Except.map, Except.bind,
      PinTable.removeRecursivePin_insertRecursivePin set hc (hrefs set hS)]

end PinOp

omit [LinearOrder Cid] in
/-- Two trees storing the same table read alike at every key. -/
theorem Abs.lookup_eq {tree' : Tree} {table : PinTable Cid} (h : Abs tree table)
    (h' : Abs tree' table) (k : Bytes) : tree.lookup k = tree'.lookup k := by
  by_cases hk : k ∈ tree ∨ k ∈ tree'
  · obtain ⟨c, m, rfl⟩ := hk.elim (h.pin_key k) (h'.pin_key k)
    rw [h.lookup_getPinKey, h'.lookup_getPinKey]
  · rw [not_or] at hk
    rw [AList.lookup_eq_none.2 hk.1, AList.lookup_eq_none.2 hk.2]

/-- **Pinning then unpinning restores the store.** On every store reached by a run of the four
mutators, for a CID with no pin: `insert_direct_pin` followed by `remove_direct_pin`, and
`insert_recursive_pin` followed by `remove_recursive_pin` with the same references, when no
reference other than the CID itself was pinned indirectly, leave every key reading as before.
Reference: `src/repo/kv.rs:114-287`. -/
theorem reachable_pin_unpin_roundtrip {allowed : PinOp Cid → Prop} (hr : Reachable allowed tree)
    {c : Cid} (hc : isPinned tree c = false) (referenced : References Cid)
    (hrefs : ∀ set, collectReferences referenced = .ok set →
      ∀ d ∈ set, d ≠ c → (getPinnedMode tree d).map Prod.fst ≠ some .indirect)
    (k : Bytes) :
    ((PinOp.removeDirectPin c).apply ((PinOp.insertDirectPin c).apply tree)).lookup k =
        tree.lookup k ∧
      ((PinOp.removeRecursivePin c referenced).apply
        ((PinOp.insertRecursivePin c referenced).apply tree)).lookup k = tree.lookup k := by
  obtain ⟨table, habs, -⟩ := hr.abs (fun _ => True) trivial fun _ _ _ _ _ _ => trivial
  have hc' : table.mode c = none := by
    simpa [habs.isPinned_eq, Option.not_isSome_iff_eq_none] using hc
  have hmode : ∀ d, (getPinnedMode tree d).map Prod.fst = table.mode d := fun d => by
    simp [habs.getPinnedMode_eq, Option.map_map, Function.comp_def]
  constructor
  · have := (habs.apply (.insertDirectPin c)).apply (.removeDirectPin c)
    rw [PinOp.applyTable_removeDirectPin_insertDirectPin hc'] at this
    exact this.lookup_eq habs k
  · have :=
      (habs.apply (.insertRecursivePin c referenced)).apply (.removeRecursivePin c referenced)
    rw [PinOp.applyTable_removeRecursivePin_insertRecursivePin referenced hc'
      fun set hS d hd hdc => hmode d ▸ hrefs set hS d hd hdc] at this
    exact this.lookup_eq habs k

theorem reachable_pin_unpin_roundtrip_directOne :
    Reachable (fun _ : PinOp (Fin 3) => True) directOne ∧
    isPinned directOne (0 : Fin 3) = false ∧
    (∀ set, collectReferences [.ok (0 : Fin 3), .ok 1, .ok 2] = .ok set →
      ∀ d ∈ set, d ≠ (0 : Fin 3) →
        (getPinnedMode directOne d).map Prod.fst ≠ some .indirect) ∧
    ((PinOp.removeDirectPin (0 : Fin 3)).apply
      ((PinOp.insertDirectPin (0 : Fin 3)).apply directOne)).lookup
        (getPinKey (1 : Fin 3) .direct) =
        directOne.lookup (getPinKey (1 : Fin 3) .direct) ∧
    ((PinOp.removeRecursivePin (0 : Fin 3) [.ok 0, .ok 1, .ok 2]).apply
      ((PinOp.insertRecursivePin (0 : Fin 3) [.ok 0, .ok 1, .ok 2]).apply directOne)).lookup
        (getPinKey (1 : Fin 3) .direct) = directOne.lookup (getPinKey (1 : Fin 3) .direct) :=
  have hr : Reachable (fun _ : PinOp (Fin 3) => True) directOne :=
    Reachable.empty.apply (PinOp.insertDirectPin (1 : Fin 3)) trivial
  have hc : isPinned directOne (0 : Fin 3) = false := by decide
  have hrefs : ∀ set, collectReferences [.ok (0 : Fin 3), .ok 1, .ok 2] = .ok set →
      ∀ d ∈ set, d ≠ (0 : Fin 3) →
        (getPinnedMode directOne d).map Prod.fst ≠ some .indirect :=
    have : ∀ d : Fin 3, (getPinnedMode directOne d).map Prod.fst ≠ some .indirect := by decide
    fun _ _ d _ _ => this d
  ⟨hr, hc, hrefs, reachable_pin_unpin_roundtrip hr hc _ hrefs _⟩

end Calls

end RustIpfs.Kv
