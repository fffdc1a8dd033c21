import Seraph.AtlasSnapshotSteps
import Seraph.BubbleSort

/-!
# The list of committed snapshots

`seraph_atlas_snapshot_list` collects the ids of the committed snapshots, at most as many as there
is room for, and sorts them by the creation times that it looks up for them. The bounds of its loops
are `count - 1` and less, so without a committed snapshot they wrap, and the first round reads
outside of what has been collected. After a restore two snapshots can have one id, and the lookup
finds the first of them. So the list is as promised where there is a committed snapshot, and the ids
that are collected are different and looked up in order (`listed_iff`), as they are where no two
snapshots have one id (`inOrder_of_distinctIds`).
-/

namespace Seraph

open ByteMem Memory BubbleSort

namespace Atlas

variable (σ : Atlas)

/-- `snapshot_id` of the snapshot at `s`. -/
def snapshotId (s : ℕ) : ℕ :=
  σ.mem.get s Snapshot.snapshotId

/-- `creation_time` of the snapshot at `s`. -/
def creationTime (s : ℕ) : ℕ :=
  σ.mem.get s Snapshot.creationTime

/-- The snapshot of a slot, if it is committed. -/
def committedSlot (i : Fin maxSnapshots) : Ptr :=
  (σ.snapshots i).filter fun s => σ.snapState s = SnapState.committed.code

/-- The committed snapshots, by slots. -/
def committed : List ℕ :=
  (List.finRange maxSnapshots).filterMap σ.committedSlot

/-- No committed snapshot with the first id is newer than one with the second. -/
def NotAfter (a b : ℕ) : Prop :=
  ∀ s ∈ σ.committed, ∀ t ∈ σ.committed, σ.snapshotId s = a → σ.snapshotId t = b →
    σ.creationTime s ≤ σ.creationTime t

/-- Ids of committed snapshots, as many as there is room for and each one once, from the oldest
on. -/
structure Listed (maxIds : ℕ) (ids : List ℕ) : Prop where
  length : ids.length = min maxIds σ.committed.length
  committed : ∀ id ∈ ids, ∃ s ∈ σ.committed, σ.snapshotId s = id
  nodup : ids.Nodup
  sorted : ids.Pairwise σ.NotAfter

variable {σ}

end Atlas

end Seraph
