import RustIpfs.Repo.Runs

/-!
# Invariants of runs that follow a DAG

Runs in which every recursive call on a root `r` passes `refs r`. `SourcesLive` holds of every
table such a run reaches: each indirect pin's value is the text of a root that is still pinned
recursively and of which the pin is a reference. So `query`'s `IndirectFrom` answer names a live
root and `cid_from_indirect_value` never fails on a stored value
(`reachable_indirectValue_live`). Coverage, the claim that every reference of a recursive root
stays pinned, fails: two roots sharing a reference keep one indirect key, and removing either root
deletes it (`shared_reference_unpinned`).
-/

namespace RustIpfs.Kv

variable {Cid : Type}

section Table
variable [DecidableEq Cid] [CidText Cid]

/-- Every indirect pin's value names a recursive root of which the pin is a reference. -/
def SourcesLive (refs : Cid → List Cid) (table : PinTable Cid) : Prop :=
  ∀ d v, table d = some (.indirect, v) →
    ∃ r, v = indirectValue r ∧ table.mode r = some .recursive ∧ d ∈ refs r

namespace SourcesLive

variable {refs : Cid → List Cid} {table table' : PinTable Cid}

omit [DecidableEq Cid] in
/-- A table that keeps every indirect pin of `table'` and every recursive pin of `table`. -/
theorem of_keeps (h : SourcesLive refs table)
    (hind : ∀ d v, table' d = some (.indirect, v) → table d = some (.indirect, v))
    (hrec : ∀ r, table.mode r = some .recursive → table'.mode r = some .recursive) :
    SourcesLive refs table' := fun d v hd => by
  obtain ⟨r, hv, hr, hdr⟩ := h d v (hind d v hd)
  exact ⟨r, hv, hrec r hr, hdr⟩

theorem insertDirectPin (h : SourcesLive refs table) (t : Cid)
    (hop : table.insertDirectPin t = .ok table') : SourcesLive refs table' := by
  unfold PinTable.insertDirectPin at hop
  rcases hm : table.mode t with _ | _ | _ | _ <;> simp only [hm, Except.ok.injEq] at hop <;>
    cases hop
  all_goals first
    | exact h
    | exact h.of_keeps (fun d v hd => by by_cases hdt : d = t <;> simp_all)
        (fun r hr => by by_cases hrt : r = t <;> simp_all)

theorem insertRecursivePin (h : SourcesLive refs table) (t : Cid) {set : List Cid}
    (hset : ∀ c, c ∈ set ↔ c ∈ refs t) :
    SourcesLive refs (table.insertRecursivePin t set) := by
  unfold PinTable.insertRecursivePin
  split_ifs with hm
  · exact h
  intro d v hd
  simp only [PinTable.pinDescendants] at hd
  split_ifs at hd with hnew
  · cases hd
    exact ⟨t, rfl, by simp, (hset d).1 hnew.1⟩
  · have hdt : d ≠ t := by rintro rfl; simp at hd
    obtain ⟨r, hv, hr, hdr⟩ := h d v (by simpa [hdt] using hd)
    have hrt : r ≠ t := by rintro rfl; exact hm hr
    exact ⟨r, hv, by simp [hrt, hr], hdr⟩

theorem removeDirectPin (h : SourcesLive refs table) (t : Cid)
    (hop : table.removeDirectPin t = .ok table') : SourcesLive refs table' := by
  unfold PinTable.removeDirectPin at hop
  rcases hm : table.mode t with _ | _ | _ | _ <;> simp only [hm, Except.ok.injEq] at hop <;>
    cases hop
  all_goals first
    | exact h
    | exact h.of_keeps (fun d v hd => by by_cases hdt : d = t <;> simp_all)
        (fun r hr => by by_cases hrt : r = t <;> simp_all)

theorem removeRecursivePin (h : SourcesLive refs table) (t : Cid) {set : List Cid}
    (hset : ∀ c, c ∈ set ↔ c ∈ refs t) (hop : table.removeRecursivePin t set = .ok table') :
    SourcesLive refs table' := by
  unfold PinTable.removeRecursivePin at hop
  rcases hm : table.mode t with _ | _ | _ | _ <;> simp only [hm, Except.ok.injEq] at hop <;>
    cases hop
  · -- a direct target: only indirect pins go
    refine h.of_keeps (fun d v hd => ?_) (fun r hr => by simp [hr])
    simp only [PinTable.unpinDescendants] at hd
    split_ifs at hd; exact hd
  · -- a recursive target: the root goes, and with it the indirect pins of its references
    intro d v hd
    simp only [PinTable.unpinDescendants] at hd
    split_ifs at hd with hgone
    have hdt : d ≠ t := by rintro rfl; simp at hd
    obtain ⟨r, hv, hr, hdr⟩ := h d v (by simpa [hdt] using hd)
    have hrt : r ≠ t := by
      rintro rfl
      exact hgone ⟨(hset d).2 hdr, by rw [PinTable.mode, hd]; rfl⟩
    exact ⟨r, hv, by simp [hrt, hr], hdr⟩

end SourcesLive

end Table

section Runs
variable [LinearOrder Cid] [CidText Cid]

/-- A call that follows `refs` keeps `SourcesLive refs`. -/
theorem SourcesLive.step {refs : Cid → List Cid} {op : PinOp Cid} {table table' : PinTable Cid}
    (hop : op.Follows refs) (h : SourcesLive refs table) (hres : op.runTable table = .ok table') :
    SourcesLive refs table' := by
  rcases PinOp.runTable_follows hop table with
    ⟨t, rfl, hrun⟩ | ⟨r, set, rfl, hset, hrun⟩ | ⟨t, rfl, hrun⟩ |
      ⟨r, set, rfl, hset, hrun⟩ <;> rw [hrun] at hres
  · exact h.insertDirectPin t hres
  · cases hres; exact h.insertRecursivePin r hset
  · exact h.removeDirectPin t hres
  · exact h.removeRecursivePin r hset hres

/-- **Indirect pins name live roots.** In a run that follows a DAG, the value of every indirect key
is the text of a CID whose recursive key is present and of which the indirect pin is a reference;
so `cid_from_indirect_value` reads that root back. Reference: `insert_recursive_pin` and
`remove_recursive_pin` (`src/repo/kv.rs:153-287`), `indirect_value` (`:457`). -/
theorem reachable_indirectValue_live {refs : Cid → List Cid} {tree : Tree}
    (hr : Reachable (PinOp.Follows refs) tree) {d : Cid} {v : Bytes}
    (hv : tree.lookup (getPinKey d .indirect) = some v) :
    ∃ r, v = indirectValue r ∧ (tree.lookup (getPinKey r .recursive)).isSome ∧ d ∈ refs r ∧
      cidFromIndirectValue v = some r := by
  obtain ⟨table, h, hs⟩ := hr.abs (SourcesLive refs) (fun _ _ h => by cases h)
    fun _ _ _ hop hinv hres => hinv.step hop hres
  rw [h.lookup_getPinKey, PinTable.lookup_eq_some] at hv
  obtain ⟨r, rfl, hrec, hdr⟩ := hs d v hv
  exact ⟨r, rfl, by rw [h.lookup_getPinKey, PinTable.lookup_isSome]; exact hrec, hdr,
    CidText.parse_text r⟩

/-- The references of a DAG in which the roots `0` and `1` both link to the block `2`. -/
def sharedRefs (c : Fin 3) : List (Fin 3) := if c = 2 then [] else [2]

/-- The store after `insert_recursive_pin(0, [2])`. -/
def rootZeroPinned : Tree := (PinOp.insertRecursivePin (0 : Fin 3) [.ok 2]).apply ∅

theorem rootZeroPinned_reachable : Reachable (PinOp.Follows sharedRefs) rootZeroPinned :=
  Reachable.empty.apply _ rfl

theorem reachable_indirectValue_live_rootZeroPinned :
    Reachable (PinOp.Follows sharedRefs) rootZeroPinned ∧
    rootZeroPinned.lookup (getPinKey (2 : Fin 3) .indirect) = some (indirectValue (0 : Fin 3)) ∧
    ∃ r : Fin 3, indirectValue (0 : Fin 3) = indirectValue r ∧
      (rootZeroPinned.lookup (getPinKey r .recursive)).isSome ∧ 2 ∈ sharedRefs r ∧
      cidFromIndirectValue (indirectValue (0 : Fin 3)) = some r :=
  have hr := rootZeroPinned_reachable
  have hv : rootZeroPinned.lookup (getPinKey (2 : Fin 3) .indirect) =
      some (indirectValue (0 : Fin 3)) := by decide
  ⟨hr, hv, reachable_indirectValue_live hr hv⟩

/-- The store after `insert_recursive_pin(0, [2])`, `insert_recursive_pin(1, [2])` and
`remove_recursive_pin(1, [2])`. -/
def sharedReferenceRemoved : Tree :=
  (PinOp.removeRecursivePin (1 : Fin 3) [.ok 2]).apply
    ((PinOp.insertRecursivePin (1 : Fin 3) [.ok 2]).apply rootZeroPinned)

/-- **Coverage fails.** Roots `0` and `1` share the reference `2`; the second recursive pin finds
`2` pinned and leaves its single indirect key, and removing root `1` deletes that key. Root `0` is
still pinned recursively and `2` is one of its references, but `2` is not pinned. Reference: the
FIXMEs at `src/repo/kv.rs:199-200` and `:272-273`. -/
theorem shared_reference_unpinned :
    Reachable (PinOp.Follows sharedRefs) sharedReferenceRemoved ∧
    (sharedReferenceRemoved.lookup (getPinKey (0 : Fin 3) .recursive)).isSome ∧
    (2 : Fin 3) ∈ sharedRefs 0 ∧ isPinned sharedReferenceRemoved (2 : Fin 3) = false :=
  ⟨(rootZeroPinned_reachable.apply (.insertRecursivePin 1 [.ok 2]) rfl).apply
    (.removeRecursivePin 1 [.ok 2]) rfl, by decide, by decide, by decide⟩

end Runs

end RustIpfs.Kv
