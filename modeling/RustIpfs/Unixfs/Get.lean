import RustIpfs.Repo.Key

/-!
# The status stream of `unixfs::get`

`get` (`src/src/unixfs/get.rs`) sets up a walker over the resolved root and returns a stream that
fetches the block the walker asks for, feeds it to the walker and acts on the outcome: a file
segment is written to the destination file and synced, and statuses report the bytes written.
The model takes what the stream does not compute as input: the walker's outcome for each block it
is fed, and which block fetches, writes and syncs fail. A run of the stream is the list of its
effects (`Effect`), each with the answer it got; the statuses yielded and what the file holds are
read off it. The walker continues while it has outcomes left.
-/

namespace RustIpfs.Unixfs

/-- Modelled from the spec: `UnixfsStatus` of `crate::unixfs`, missing from the sources; the error
is the text of the `anyhow` error. -/
inductive UnixfsStatus (Path : Type)
  | progressStatus (written : Nat) (totalSize : Option Nat)
  | failedStatus (written : Nat) (totalSize : Option Nat) (error : Option String)
  | completedStatus (path : Path) (written : Nat) (totalSize : Option Nat)
  deriving DecidableEq, Repr

namespace UnixfsStatus

variable {Path : Type}

/-- The `written` field of a status. -/
def written : UnixfsStatus Path → Nat
  | progressStatus w _ | failedStatus w _ _ | completedStatus _ w _ => w

/-- The `total_size` field of a status. -/
def totalSize : UnixfsStatus Path → Option Nat
  | progressStatus _ t | failedStatus _ t _ | completedStatus _ _ t => t

/-- A status that ends the stream. -/
def isTerminal : UnixfsStatus Path → Bool
  | progressStatus .. => false
  | failedStatus .. | completedStatus .. => true

end UnixfsStatus

/-- Modelled from the spec: the part of `FileSegment` of `rust_unixfs` that `get` reads, its bytes
and whether it is the first or last segment of its file. -/
structure FileSegment where
  bytes : Bytes
  isFirst : Bool
  isLast : Bool
  deriving DecidableEq, Repr

/-- Modelled from the spec: `ContinuedWalk` of `rust_unixfs::walk`, with the fields `get` reads. -/
inductive ContinuedWalk
  | bucket
  | file (segment : FileSegment) (size : Nat)
  | directory
  | rootDirectory
  | symlink
  deriving DecidableEq, Repr

/-- How writing one chunk went: `file.write_all(next)` failed after writing `wrote` bytes of it,
or it succeeded and `file.sync_all()` failed, or both succeeded. -/
inductive WriteResult
  | writeFailed (error : String) (wrote : Nat)
  | syncFailed (error : String)
  | synced
  deriving DecidableEq, Repr

/-- The answers of the stream's environment, call by call: the `k`-th block fetch fails with
`fetch k` if that is an error, and the `k`-th chunk written goes as `write k` says. -/
structure Faults where
  fetch : Nat → Option String
  write : Nat → WriteResult

/-- An effect of the stream with the answer it got: a block fetch, the write and sync of a chunk,
or a yielded status. -/
inductive Effect (Path : Type)
  | getBlock (error : Option String)
  | write (chunk : Bytes) (result : WriteResult)
  | yield (status : UnixfsStatus Path)
  deriving DecidableEq, Repr

/-- The locals `total_size` and `written` of the stream's body, with the number of block fetches
and chunk writes made so far. -/
structure GetState where
  totalSize : Option Nat
  written : Nat
  fetches : Nat
  writes : Nat
  deriving DecidableEq, Repr

variable {Path : Type}

/-- The body of the write loop on the chunk `next`, `n` being the bytes of the segment consumed so
far: write and sync, then add `n` to `written` and yield progress; a failure yields the failed
status and ends the stream (the `Bool`). Reference: `get.rs:79-91`. -/
def writeChunk (faults : Faults) (next : Bytes) (n : Nat) (s : GetState) :
    List (Effect Path) × GetState × Bool :=
  match faults.write s.writes with
  | .writeFailed e wrote =>
    ([.write next (.writeFailed e wrote), .yield (.failedStatus s.written s.totalSize (some e))],
      { s with writes := s.writes + 1 }, true)
  | .syncFailed e =>
    ([.write next (.syncFailed e), .yield (.failedStatus s.written s.totalSize (some e))],
      { s with writes := s.writes + 1 }, true)
  | .synced =>
    let s := { s with writes := s.writes + 1, written := s.written + n }
    ([.write next .synced, .yield (.progressStatus s.written s.totalSize)], s, false)

/-- The write loop `while n < total`: `next` is the rest of the slice from `n`. Reference:
`get.rs:74-92`. -/
def writeLoop (faults : Faults) (slice : Bytes) (n : Nat) (s : GetState) :
    List (Effect Path) × GetState × Bool :=
  if n < slice.length then
    let next := slice.drop n
    let n' := n + next.length
    match writeChunk faults next n' s with
    | (effects, s', true) => (effects, s', true)
    | (effects, s', false) =>
      let (rest, s'', stopped) := writeLoop faults slice n' s'
      (effects ++ rest, s'', stopped)
  else ([], s, false)
termination_by slice.length - n
decreasing_by simp only [next, n', List.length_drop]; omega

/-- The write loop runs its body once on a non-empty segment, on the whole segment: after one pass
`n` is the segment's length. -/
theorem writeLoop_zero (faults : Faults) (slice : Bytes) (s : GetState) :
    (writeLoop faults slice 0 s : List (Effect Path) × GetState × Bool) =
      if slice = [] then ([], s, false) else writeChunk faults slice slice.length s := by
  rw [writeLoop]
  by_cases h : slice = []
  · subst h; rfl
  · rw [if_pos (List.length_pos.2 h), if_neg h]
    simp only [List.drop_zero, Nat.zero_add]
    rcases writeChunk faults slice slice.length s with ⟨effects, s', _ | _⟩
    · simp only
      rw [writeLoop, if_neg (lt_irrefl _), List.append_nil]
    · rfl

/-- One pass of `while walker.should_continue()`, on the walker's outcome for the block it asks
for: effects, state, and whether the stream returned. Reference: `get.rs:51-104`. -/
def iteration (faults : Faults) (outcome : Except String ContinuedWalk) (s : GetState) :
    List (Effect Path) × GetState × Bool :=
  match faults.fetch s.fetches with
  | some e =>
    ([.getBlock (some e), .yield (.failedStatus s.written s.totalSize (some e))],
      { s with fetches := s.fetches + 1 }, true)
  | none =>
    let s := { s with fetches := s.fetches + 1 }
    match outcome with
    | .ok .bucket => ([.getBlock none], s, false)
    | .ok (.file segment size) =>
      let s := if segment.isFirst then { s with totalSize := some size } else s
      let first : List (Effect Path) :=
        if segment.isFirst then [.yield (.progressStatus s.written s.totalSize)] else []
      match writeLoop faults segment.bytes 0 s with
      | (effects, s, true) => (.getBlock none :: first ++ effects, s, true)
      | (effects, s, false) =>
        let last := if segment.isLast then [.yield (.progressStatus s.written s.totalSize)] else []
        (.getBlock none :: first ++ effects ++ last, s, false)
    | .ok .directory | .ok .rootDirectory => ([.getBlock none], s, false)
    | .ok .symlink => ([.getBlock none], s, false)
    | .error e => ([.getBlock none, .yield (.failedStatus s.written s.totalSize (some e))], s, true)

/-- The loop `while walker.should_continue()` over the walker's outcomes, then the completed
status. Reference: `get.rs:51-107`. -/
def walk (faults : Faults) (path : Path) :
    List (Except String ContinuedWalk) → GetState → List (Effect Path)
  | [], s => [.yield (.completedStatus path s.written s.totalSize)]
  | outcome :: outcomes, s =>
    match iteration faults outcome s with
    | (effects, _, true) => effects
    | (effects, s, false) => effects ++ walk faults path outcomes s

/-- The stream `get` returns, from `total_size = None` and `written = 0`. Reference:
`get.rs:47-108`. -/
def getStream (faults : Faults) (path : Path) (outcomes : List (Except String ContinuedWalk)) :
    List (Effect Path) :=
  walk faults path outcomes ⟨none, 0, 0, 0⟩

/-! ## What a run shows -/

/-- The statuses a run yields, in order. -/
def statuses (effects : List (Effect Path)) : List (UnixfsStatus Path) :=
  effects.filterMap fun | .yield status => some status | _ => none

/-- The chunks a run wrote and synced, in order. -/
def flushed (effects : List (Effect Path)) : List Bytes :=
  effects.filterMap fun | .write chunk .synced => some chunk | _ => none

/-- What the destination file holds after a run: every chunk written, of a failed write the
prefix written before the failure. -/
def sink (effects : List (Effect Path)) : Bytes :=
  (effects.filterMap fun
    | .write chunk (.writeFailed _ wrote) => some (chunk.take wrote)
    | .write chunk _ => some chunk
    | .yield _ | .getBlock _ => none).flatten

/-- The number of blocks a run fed to the walker: its block fetches that succeeded. -/
def blocksFed (effects : List (Effect Path)) : Nat :=
  effects.countP fun | .getBlock none => true | _ => false

end RustIpfs.Unixfs
