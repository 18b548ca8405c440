import RustIpfs.Repo.Invariants

/-!
# The inserts are idempotent and commute on modes

sled serialises concurrent pin requests in any order, so callers rely on two facts about the
insert calls. Each is idempotent on every tree: after `insert_direct_pin(c)` the first probe of
`get_pinned_mode` finds `c` direct, and after `insert_recursive_pin(r, _)` it finds `r` recursive,
so the second call commits nothing. And on a reachable tree, two inserts in either order leave
every CID with the same mode (`reachable_inserts_idempotent_commute`); only the roots named by
indirect values can differ. The order argument is made on the table, where each insert's effect
on modes has a closed form.
-/

namespace RustIpfs.Kv

variable {Cid : Type}

/-! ## Idempotence on every tree -/

section Idempotence
variable [CidText Cid] {tree tree' : Tree}

/-- A committed `insert_direct_pin(c)` leaves the direct key of `c`. -/
theorem insertDirectPin_direct {c : Cid} (h : insertDirectPin tree c = .ok tree') :
    (tree'.lookup (getPinKey c .direct)).isSome := by
  unfold insertDirectPin insertDirectPin.writeDirect at h
  rw [getPinnedMode_eq] at h
  split_ifs at h with h1 <;> simp only [Except.ok.injEq, reduceCtorEq] at h <;> subst h <;>
    simp [h1]

/-- On a tree where `c` has its direct key, `insert_direct_pin(c)` commits nothing. -/
theorem insertDirectPin_of_direct {c : Cid} (h : (tree.lookup (getPinKey c .direct)).isSome) :
    insertDirectPin tree c = .ok tree := by
  simp [insertDirectPin, getPinnedMode_eq, h]

/-- The loop of `insert_recursive_pin` writes indirect keys only. -/
theorem lookup_pinDescendants_of_ne (target c : Cid) {m : PinMode} (hm : m ≠ .indirect)
    (set : List Cid) (tree : Tree) :
    (pinDescendants target tree set).lookup (getPinKey c m) = tree.lookup (getPinKey c m) := by
  induction set generalizing tree with
  | nil => rfl
  | cons d ds ih =>
    simp only [pinDescendants, List.foldl_cons] at ih ⊢
    rw [ih]
    split_ifs <;> simp [hm]

/-- After the transaction of `insert_recursive_pin(r, _)`, `get_pinned_mode` finds `r` recursive. -/
theorem getPinnedMode_insertRecursivePinTx (r : Cid) (set : List Cid) :
    getPinnedMode (insertRecursivePinTx tree r set) r =
      some (.recursive, getPinKey r .recursive) := by
  have hD : ∀ t : Tree, (t.lookup (getPinKey r .direct)).isSome = false →
      getPinnedMode (insertRecursivePinTx.pinTarget r set t) r =
        some (.recursive, getPinKey r .recursive) := fun t ht => by
    simp [insertRecursivePinTx.pinTarget, getPinnedMode_eq, lookup_pinDescendants_of_ne, ht]
  unfold insertRecursivePinTx
  rw [getPinnedMode_eq tree r]
  split_ifs with h1 h2 h3
  · exact hD _ (by simp)
  · rw [getPinnedMode_eq, if_neg h1, if_pos h2]
  · exact hD _ (by simpa using h1)
  · exact hD _ (by simpa using h1)

/-- On a tree where `r` is recursive, the transaction of `insert_recursive_pin(r, _)` commits
nothing. -/
theorem insertRecursivePinTx_of_recursive {r : Cid} {key : Bytes}
    (h : getPinnedMode tree r = some (.recursive, key)) (set : List Cid) :
    insertRecursivePinTx tree r set = tree := by
  simp [insertRecursivePinTx, h]

end Idempotence

/-! ## The modes after an insert -/

section Modes
variable [DecidableEq Cid]

/-- What `insert_direct_pin(t)` does to the modes of a table. -/
def directModes (M : Cid → Option PinMode) (t : Cid) (c : Cid) : Option PinMode :=
  if c = t ∧ M t ≠ some .recursive then some .direct else M c

/-- What `insert_recursive_pin(r, R)` does to the modes of a table. -/
def recursiveModes (M : Cid → Option PinMode) (r : Cid) (R : List Cid) (c : Cid) :
    Option PinMode :=
  if M r = some .recursive then M c
  else if c = r then some .recursive
  else if c ∈ R ∧ M c = none then some .indirect
  else M c

variable {M : Cid → Option PinMode}

theorem recursiveModes_of_recursive {r : Cid} (h : M r = some .recursive) (R : List Cid) :
    recursiveModes M r R = M := funext fun _ => if_pos h

theorem recursiveModes_self {r : Cid} (h : M r ≠ some .recursive) (R : List Cid) :
    recursiveModes M r R r = some .recursive := by simp [recursiveModes, h]

theorem recursiveModes_ne {r c : Cid} (h : M r ≠ some .recursive) (hc : c ≠ r) (R : List Cid) :
    recursiveModes M r R c = if c ∈ R ∧ M c = none then some .indirect else M c := by
  simp [recursiveModes, h, hc]

/-- A recursive insert makes no other CID recursive. -/
theorem recursiveModes_eq_recursive {r c : Cid} (hc : c ≠ r) (R : List Cid) :
    recursiveModes M r R c = some .recursive ↔ M c = some .recursive := by
  unfold recursiveModes; split_ifs <;> simp_all

/-- A direct insert makes no CID recursive. -/
theorem directModes_eq_recursive {t c : Cid} :
    directModes M t c = some .recursive ↔ M c = some .recursive := by
  unfold directModes; split_ifs with h <;> simp_all

theorem directModes_comm (t₁ t₂ : Cid) :
    directModes (directModes M t₁) t₂ = directModes (directModes M t₂) t₁ := by
  funext c
  simp only [directModes, directModes_eq_recursive]
  by_cases h₁ : c = t₁ <;> by_cases h₂ : c = t₂ <;> simp_all

theorem directModes_self (t : Cid) :
    directModes M t t = if M t = some .recursive then some .recursive else some .direct := by
  unfold directModes; split_ifs <;> simp_all

theorem directModes_ne {t c : Cid} (hc : c ≠ t) : directModes M t c = M c := by
  simp [directModes, hc]

theorem directModes_recursiveModes_comm (t r : Cid) (R : List Cid) :
    directModes (recursiveModes M r R) t = recursiveModes (directModes M t) r R := by
  funext c
  by_cases hr : M r = some .recursive
  · have hr' : directModes M t r = some .recursive := directModes_eq_recursive.2 hr
    rw [recursiveModes_of_recursive hr, recursiveModes_of_recursive hr']
  have hr' : directModes M t r ≠ some .recursive := mt directModes_eq_recursive.1 hr
  by_cases hcr : c = r
  · rw [hcr, recursiveModes_self hr']
    by_cases hrt : r = t
    · rw [hrt, directModes_self, if_pos (hrt ▸ recursiveModes_self hr R)]
    · rw [directModes_ne hrt, recursiveModes_self hr]
  rw [recursiveModes_ne hr' hcr]
  by_cases hct : c = t
  · rw [hct] at hcr ⊢
    rw [directModes_self, directModes_self]
    simp only [recursiveModes_eq_recursive hcr]
    split_ifs <;> simp_all
  · rw [directModes_ne hct, directModes_ne hct, recursiveModes_ne hr hcr]

theorem recursiveModes_comm {r₁ r₂ : Cid} (hne : r₁ ≠ r₂) (R₁ R₂ : List Cid) :
    recursiveModes (recursiveModes M r₁ R₁) r₂ R₂ =
      recursiveModes (recursiveModes M r₂ R₂) r₁ R₁ := by
  by_cases h₁ : M r₁ = some .recursive
  · have h₁' := (recursiveModes_eq_recursive (M := M) (R := R₂) hne).2 h₁
    rw [recursiveModes_of_recursive h₁, recursiveModes_of_recursive h₁']
  by_cases h₂ : M r₂ = some .recursive
  · have h₂' := (recursiveModes_eq_recursive (M := M) (R := R₁) hne.symm).2 h₂
    rw [recursiveModes_of_recursive h₂, recursiveModes_of_recursive h₂']
  have h₁' : recursiveModes M r₂ R₂ r₁ ≠ some .recursive :=
    mt (recursiveModes_eq_recursive hne R₂).1 h₁
  have h₂' : recursiveModes M r₁ R₁ r₂ ≠ some .recursive :=
    mt (recursiveModes_eq_recursive hne.symm R₁).1 h₂
  funext c
  by_cases hc₁ : c = r₁
  · subst hc₁
    rw [recursiveModes_self h₁', recursiveModes_ne h₂' hne, recursiveModes_self h₁]
    simp
  by_cases hc₂ : c = r₂
  · subst hc₂
    rw [recursiveModes_self h₂', recursiveModes_ne h₁' (Ne.symm hne), recursiveModes_self h₂]
    simp
  rw [recursiveModes_ne h₂' hc₂, recursiveModes_ne h₁' hc₁, recursiveModes_ne h₁ hc₁,
    recursiveModes_ne h₂ hc₂]
  by_cases hm : M c = none <;> by_cases hR₁ : c ∈ R₁ <;> by_cases hR₂ : c ∈ R₂ <;>
    simp [hm, hR₁, hR₂]


end Modes

section Runs
variable [LinearOrder Cid] [CidText Cid]

theorem PinOp.apply_insertDirectPin_idem (tree : Tree) (c : Cid) :
    (PinOp.insertDirectPin c).apply ((PinOp.insertDirectPin c).apply tree) =
      (PinOp.insertDirectPin c).apply tree := by
  simp only [PinOp.apply, PinOp.run]
  cases h : Kv.insertDirectPin tree c with
  | error => simp [h]
  | ok tree' => simp [insertDirectPin_of_direct (insertDirectPin_direct h)]

theorem PinOp.apply_insertRecursivePin_idem (tree : Tree) (r : Cid) (referenced : References Cid) :
    (PinOp.insertRecursivePin r referenced).apply
        ((PinOp.insertRecursivePin r referenced).apply tree) =
      (PinOp.insertRecursivePin r referenced).apply tree := by
  have hidem : ∀ set, insertRecursivePinTx (insertRecursivePinTx tree r set) r set =
      insertRecursivePinTx tree r set := fun set =>
    insertRecursivePinTx_of_recursive (getPinnedMode_insertRecursivePinTx r set) set
  simp only [PinOp.apply, PinOp.run, Kv.insertRecursivePin]
  cases collectReferences referenced with
  | error => rfl
  | ok set => exact hidem set

/-! ## The modes after two inserts -/

/-- The insert calls of a run that follows `refs`. -/
def PinOp.IsInsert (refs : Cid → List Cid) : PinOp Cid → Prop
  | insertDirectPin _ => True
  | insertRecursivePin r referenced => referenced = (refs r).map .ok
  | _ => False


/-- The modes after `insert_direct_pin(t)`. -/
theorem PinOp.mode_applyTable_insertDirectPin (table : PinTable Cid) (t : Cid) :
    ((PinOp.insertDirectPin t).applyTable table).mode = directModes table.mode t := by
  funext c
  simp only [PinOp.applyTable, PinOp.runTable, PinTable.insertDirectPin, directModes]
  rcases hm : table.mode t with _ | _ | _ | _ <;> by_cases hc : c = t <;> simp [hm, hc]

/-- The modes after `insert_recursive_pin(r, refs r)`. -/
theorem PinOp.mode_applyTable_insertRecursivePin (refs : Cid → List Cid) (table : PinTable Cid)
    (r : Cid) :
    ((PinOp.insertRecursivePin r ((refs r).map .ok)).applyTable table).mode =
      recursiveModes table.mode r (refs r) := by
  funext c
  obtain ⟨set, hc, hmem⟩ := collectReferences_map_ok (refs r)
  simp only [PinOp.applyTable, PinOp.runTable, hc, Except.map, PinTable.insertRecursivePin,
    recursiveModes]
  split_ifs <;> simp_all

/-- **Inserts commute on modes.** Two insert calls applied to a table in either order give every
CID the same mode. -/
theorem PinOp.mode_applyTable_comm {refs : Cid → List Cid} {o₁ o₂ : PinOp Cid}
    (h₁ : o₁.IsInsert refs) (h₂ : o₂.IsInsert refs) (table : PinTable Cid) :
    (o₂.applyTable (o₁.applyTable table)).mode =
      (o₁.applyTable (o₂.applyTable table)).mode := by
  cases o₁ with
  | insertDirectPin t₁ =>
    cases o₂ with
    | insertDirectPin t₂ =>
      simp only [mode_applyTable_insertDirectPin, directModes_comm]
    | insertRecursivePin r₂ _ =>
      cases h₂
      simp only [mode_applyTable_insertDirectPin, mode_applyTable_insertRecursivePin,
        directModes_recursiveModes_comm]
    | _ => cases h₂
  | insertRecursivePin r₁ _ =>
    cases h₁
    cases o₂ with
    | insertDirectPin t₂ =>
      simp only [mode_applyTable_insertDirectPin, mode_applyTable_insertRecursivePin,
        directModes_recursiveModes_comm]
    | insertRecursivePin r₂ _ =>
      cases h₂
      by_cases hne : r₁ = r₂
      · subst hne; rfl
      · simp only [mode_applyTable_insertRecursivePin, recursiveModes_comm hne]
    | _ => cases h₂
  | _ => cases h₁

/-- **Idempotent and order-independent inserts.** On every tree reachable by a run that follows
`refs`: `insert_direct_pin(c)` twice, or `insert_recursive_pin(r, refs r)` twice, commits what one
call commits; and any two insert calls, in either order, leave every CID with the same pinned mode.
Reference: `insert_direct_pin` and `insert_recursive_pin` (`src/repo/kv.rs:114-211`),
`get_pinned_mode` (`:499-512`). -/
theorem reachable_inserts_idempotent_commute {refs : Cid → List Cid} {tree : Tree}
    (hr : Reachable (PinOp.Follows refs) tree) :
    (∀ c : Cid, (PinOp.insertDirectPin c).apply ((PinOp.insertDirectPin c).apply tree) =
      (PinOp.insertDirectPin c).apply tree) ∧
    (∀ r : Cid, (PinOp.insertRecursivePin r ((refs r).map .ok)).apply
        ((PinOp.insertRecursivePin r ((refs r).map .ok)).apply tree) =
      (PinOp.insertRecursivePin r ((refs r).map .ok)).apply tree) ∧
    (∀ o₁ o₂ : PinOp Cid, o₁.IsInsert refs → o₂.IsInsert refs → ∀ c : Cid,
      getPinnedMode (o₂.apply (o₁.apply tree)) c = getPinnedMode (o₁.apply (o₂.apply tree)) c) := by
  obtain ⟨table, h, -⟩ := hr.abs (fun _ => True) trivial fun _ _ _ _ _ _ => trivial
  refine ⟨fun c => PinOp.apply_insertDirectPin_idem tree c,
    fun r => PinOp.apply_insertRecursivePin_idem tree r _, fun o₁ o₂ h₁ h₂ c => ?_⟩
  rw [((h.apply o₁).apply o₂).getPinnedMode_eq, ((h.apply o₂).apply o₁).getPinnedMode_eq,
    PinOp.mode_applyTable_comm h₁ h₂]

theorem reachable_inserts_idempotent_commute_rootZeroPinned :
    Reachable (PinOp.Follows sharedRefs) rootZeroPinned ∧
    (∀ c : Fin 3, (PinOp.insertDirectPin c).apply ((PinOp.insertDirectPin c).apply rootZeroPinned) =
      (PinOp.insertDirectPin c).apply rootZeroPinned) ∧
    (∀ r : Fin 3, (PinOp.insertRecursivePin r ((sharedRefs r).map .ok)).apply
        ((PinOp.insertRecursivePin r ((sharedRefs r).map .ok)).apply rootZeroPinned) =
      (PinOp.insertRecursivePin r ((sharedRefs r).map .ok)).apply rootZeroPinned) ∧
    (∀ o₁ o₂ : PinOp (Fin 3), o₁.IsInsert sharedRefs → o₂.IsInsert sharedRefs → ∀ c : Fin 3,
      getPinnedMode (o₂.apply (o₁.apply rootZeroPinned)) c =
        getPinnedMode (o₁.apply (o₂.apply rootZeroPinned)) c) :=
  ⟨rootZeroPinned_reachable, reachable_inserts_idempotent_commute rootZeroPinned_reachable⟩

end Runs

end RustIpfs.Kv
