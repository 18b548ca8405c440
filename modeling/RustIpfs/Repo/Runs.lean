import RustIpfs.Repo.Simulation

/-!
# Runs of the pin store

A run is a sequence of committed transactions from the empty tree (`Reachable`), each a call of one
of the four mutators (`PinOp`) on any CID and any references stream; an aborted transaction leaves
the tree as it was and is no step. `PinOp.Follows refs` restricts the recursive calls on a root `r`
to the references `refs r` of a fixed DAG. Every reachable tree stores a pin table, and whatever the
table operations preserve holds of it (`Reachable.abs`): the induction over runs is done once here.
-/

namespace RustIpfs.Kv

variable {Cid : Type} [LinearOrder Cid] [CidText Cid]

/-- A call of one of the store's mutators. -/
inductive PinOp (Cid : Type)
  | insertDirectPin (target : Cid)
  | insertRecursivePin (target : Cid) (referenced : References Cid)
  | removeDirectPin (target : Cid)
  | removeRecursivePin (target : Cid) (referenced : References Cid)

namespace PinOp

/-- The transaction of a call. -/
def run : PinOp Cid → Tree → Except String Tree
  | insertDirectPin t, tree => Kv.insertDirectPin tree t
  | insertRecursivePin t referenced, tree => Kv.insertRecursivePin tree t referenced
  | removeDirectPin t, tree => Kv.removeDirectPin tree t
  | removeRecursivePin t referenced, tree => Kv.removeRecursivePin tree t referenced

/-- The table operation of a call, after the same collection of its references. -/
def runTable : PinOp Cid → PinTable Cid → Except String (PinTable Cid)
  | insertDirectPin t, table => table.insertDirectPin t
  | insertRecursivePin t referenced, table =>
    (collectReferences referenced).map (table.insertRecursivePin t)
  | removeDirectPin t, table => table.removeDirectPin t
  | removeRecursivePin t referenced, table =>
    (collectReferences referenced).bind (table.removeRecursivePin t)

/-- The tree after a call: the committed tree, or the same tree if the transaction aborts. -/
def apply (op : PinOp Cid) (tree : Tree) : Tree :=
  match op.run tree with
  | .ok tree' => tree'
  | .error _ => tree

/-- The table after a call. -/
def applyTable (op : PinOp Cid) (table : PinTable Cid) : PinTable Cid :=
  match op.runTable table with
  | .ok table' => table'
  | .error _ => table

/-- The recursive calls on a root `r` pass `refs r`, its references in a fixed DAG. -/
def Follows (refs : Cid → List Cid) : PinOp Cid → Prop
  | insertRecursivePin r referenced | removeRecursivePin r referenced =>
    referenced = (refs r).map .ok
  | _ => True

/-- Each call simulates its table operation, for any relation the writes keep. -/
theorem sim {R : Tree → PinTable Cid → Prop} (hR : Simulates R) {tree : Tree}
    {table : PinTable Cid} (h : R tree table) :
    ∀ op : PinOp Cid, Agree R (op.run tree) (op.runTable table)
  | insertDirectPin t => hR.insertDirectPin_sim h t
  | insertRecursivePin t referenced => by
    simp only [run, runTable, Kv.insertRecursivePin]
    cases collectReferences referenced
    · rfl
    · exact hR.insertRecursivePinTx_sim h _ _
  | removeDirectPin t => hR.removeDirectPin_sim h t
  | removeRecursivePin t referenced => by
    simp only [run, runTable, Kv.removeRecursivePin]
    cases collectReferences referenced
    · rfl
    · exact hR.removeRecursivePinTx_sim h _ _

end PinOp

/-- A call keeps a tree storing a table, aborted or not. -/
theorem Abs.apply {tree : Tree} {table : PinTable Cid} (h : Abs tree table) (op : PinOp Cid) :
    Abs (op.apply tree) (op.applyTable table) := by
  have := PinOp.sim Abs.simulates h op
  simp only [PinOp.apply, PinOp.applyTable]
  revert this
  cases op.run tree <;> cases op.runTable table <;> simp [Agree, h]

/-- The trees a run of committed calls reaches from the empty tree, each call allowed by
`allowed`. -/
inductive Reachable (allowed : PinOp Cid → Prop) : Tree → Prop
  | empty : Reachable allowed ∅
  | step {tree tree' : Tree} (op : PinOp Cid) : Reachable allowed tree → allowed op →
      op.run tree = .ok tree' → Reachable allowed tree'

/-- An aborted call keeps the tree reachable too. -/
theorem Reachable.apply {allowed : PinOp Cid → Prop} {tree : Tree} (h : Reachable allowed tree)
    (op : PinOp Cid) (hop : allowed op) : Reachable allowed (op.apply tree) := by
  unfold PinOp.apply
  split
  · exact .step op h hop ‹_›
  · exact h

/-- **Runs store tables.** A reachable tree stores a table satisfying every property that holds
of the empty table and that the allowed table operations preserve. -/
theorem Reachable.abs {allowed : PinOp Cid → Prop} (Inv : PinTable Cid → Prop)
    (h₀ : Inv fun _ => none)
    (hstep : ∀ op table table', allowed op → Inv table → op.runTable table = .ok table' →
      Inv table')
    {tree : Tree} (hr : Reachable allowed tree) : ∃ table, Abs tree table ∧ Inv table := by
  induction hr with
  | empty => exact ⟨_, Abs.empty, h₀⟩
  | step op _ hop hrun ih =>
    obtain ⟨table, habs, hinv⟩ := ih
    have hsim := PinOp.sim Abs.simulates habs op
    rw [hrun] at hsim
    obtain ⟨table', hres, habs'⟩ := hsim.ok_left
    exact ⟨table', habs', hstep op table table' hop hinv hres⟩

omit [CidText Cid] in
/-- The references a run passes, once collected: the same CIDs. -/
theorem collectReferences_map_ok (l : List Cid) :
    ∃ set, collectReferences (l.map .ok) = .ok set ∧ ∀ c, c ∈ set ↔ c ∈ l := by
  have hm : (l.map Except.ok).mapM id = (.ok l : Except String (List Cid)) := by
    induction l with
    | nil => rfl
    | cons a l ih => simp only [List.map_cons, List.mapM_cons, id, ih]; rfl
  refine ⟨_, by simp only [collectReferences, hm]; rfl, fun c => ?_⟩
  simp [(List.perm_insertionSort _ _).mem_iff]

/-- A recursive call that follows `refs` runs its table operation over a set with the CIDs of
`refs r`. -/
theorem PinOp.runTable_follows {refs : Cid → List Cid} {op : PinOp Cid} (hop : op.Follows refs)
    (table : PinTable Cid) :
    (∃ t, op = .insertDirectPin t ∧ op.runTable table = table.insertDirectPin t) ∨
    (∃ r set, op = .insertRecursivePin r ((refs r).map .ok) ∧
      (∀ c, c ∈ set ↔ c ∈ refs r) ∧ op.runTable table = .ok (table.insertRecursivePin r set)) ∨
    (∃ t, op = .removeDirectPin t ∧ op.runTable table = table.removeDirectPin t) ∨
    (∃ r set, op = .removeRecursivePin r ((refs r).map .ok) ∧
      (∀ c, c ∈ set ↔ c ∈ refs r) ∧ op.runTable table = table.removeRecursivePin r set) := by
  cases op with
  | insertDirectPin t => exact .inl ⟨t, rfl, rfl⟩
  | insertRecursivePin r referenced =>
    cases hop
    obtain ⟨set, hc, hmem⟩ := collectReferences_map_ok (refs r)
    exact .inr (.inl ⟨r, set, rfl, hmem, by simp only [runTable, hc]; rfl⟩)
  | removeDirectPin t => exact .inr (.inr (.inl ⟨t, rfl, rfl⟩))
  | removeRecursivePin r referenced =>
    cases hop
    obtain ⟨set, hc, hmem⟩ := collectReferences_map_ok (refs r)
    exact .inr (.inr (.inr ⟨r, set, rfl, hmem, by simp only [runTable, hc]; rfl⟩))

/-- Three CIDs for concrete runs, `0`, `1` and `2`, whose text is one ASCII digit. -/
instance : CidText (Fin 3) where
  text i := [48 + i.val.toUInt8]
  parse b := if b = [48] then some 0 else if b = [49] then some 1 else if b = [50] then some 2
    else none
  parse_text := by decide
  text_ne_nil _ := List.cons_ne_nil _ _

/-! ## At most one key per CID -/

/-- **At most one key per CID.** In every reachable tree, at most one of the keys of a CID for the
three modes is present. Reference: the transactions of `src/repo/kv.rs:114-287` against the
probes of `get_pinned_mode` (`:499-512`). -/
theorem reachable_atMostOnePinKey {allowed : PinOp Cid → Prop} {tree : Tree}
    (hr : Reachable allowed tree) (c : Cid) :
    ([PinMode.direct, .recursive, .indirect].filter fun m =>
      (tree.lookup (getPinKey c m)).isSome).length ≤ 1 := by
  obtain ⟨table, h, -⟩ := hr.abs (fun _ => True) trivial fun _ _ _ _ _ _ => trivial
  simp only [h.lookup_getPinKey]
  rcases hc : table c with _ | ⟨_ | _ | _, v⟩ <;> simp [PinTable.lookup, hc]

theorem reachable_atMostOnePinKey_directPin :
    Reachable (fun _ : PinOp (Fin 3) => True) ((PinOp.insertDirectPin (0 : Fin 3)).apply ∅) ∧
    ([PinMode.direct, .recursive, .indirect].filter fun m =>
      (((PinOp.insertDirectPin (0 : Fin 3)).apply ∅).lookup (getPinKey (0 : Fin 3) m)).isSome).length
        ≤ 1 :=
  have hr := Reachable.empty.apply (PinOp.insertDirectPin (0 : Fin 3)) trivial
  ⟨hr, reachable_atMostOnePinKey hr 0⟩

end RustIpfs.Kv
