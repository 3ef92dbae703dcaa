import SnapshotSql.Heap.Table
/-! # Visibility -/

namespace SnapshotSql

/-! ## Transaction states and snapshots -/

inductive Ending where
  | committed
  | aborted
  deriving DecidableEq, Inhabited

def Ending.render : Ending → String
  | committed => "committed"
  | aborted => "aborted"

inductive TxStatus where
  | active
  | ended (how : Ending)
  deriving DecidableEq, Inhabited

/-- The transactions numbered below `next` that were not in progress when it was taken. -/
structure Snapshot where
  next : Nat
  inProgress : List TxId
  deriving DecidableEq, Inhabited

def Snapshot.sees (s : Snapshot) (tx : TxId) : Bool :=
  tx.number < s.next && !s.inProgress.contains tx

structure Registry where
  statuses : Array TxStatus := #[]
  deriving Inhabited

namespace Registry

/-- The status of a transaction. Unknown numbers count as committed. -/
def status (r : Registry) (tx : TxId) : TxStatus :=
  match tx.number with
  | 0 => .ended .committed
  | n + 1 => r.statuses[n]?.getD (.ended .committed)

def register (r : Registry) : TxId × Registry :=
  (⟨r.statuses.size + 1⟩, { r with statuses := r.statuses.push .active })

def finish (r : Registry) (tx : TxId) (how : Ending) : Registry :=
  match tx.number with
  | 0 => r
  | n + 1 => { r with statuses := r.statuses.setIfInBounds n (.ended how) }

def active (r : Registry) : List TxId :=
  ((List.range r.statuses.size).map fun n => (⟨n + 1⟩ : TxId)).filter (r.status · = .active)

def snapshot (r : Registry) : Snapshot := ⟨r.statuses.size + 1, r.active⟩

end Registry

/-! ## Visibility of row versions -/

inductive Access where
  | read
  | write
  deriving DecidableEq, Inhabited

inductive Visibility where
  | visible
  | invisible
  | contested
  deriving DecidableEq, Inhabited

namespace Registry

/-- How the creator's stamp decides, or nothing if the version counts as created for `me`. -/
def creatorVerdict (r : Registry) (me : TxId) (s : Snapshot) (access : Access) (v : Version) :
    Option Visibility :=
  if v.creator = me then none
  else match r.status v.creator, access with
    | .ended .aborted, _ => some .invisible
    | .active, .read => some .invisible
    | .active, .write => some .contested
    | .ended .committed, .read => if s.sees v.creator then none else some .invisible
    | .ended .committed, .write => none

/-- How the deleter's stamp decides about a version that counts as created. -/
def deleterVerdict (r : Registry) (me : TxId) (s : Snapshot) (access : Access) (v : Version) :
    Visibility :=
  match v.deleter with
  | none => .visible
  | some deleter =>
    if deleter = me then .invisible
    else match r.status deleter, access with
      | .ended .aborted, _ => .visible
      | .active, .read => .visible
      | .active, .write => .contested
      | .ended .committed, .read => if s.sees deleter then .invisible else .visible
      | .ended .committed, .write => if s.sees deleter then .invisible else .contested

def visibility (r : Registry) (me : TxId) (s : Snapshot) (access : Access) (v : Version) :
    Visibility :=
  (r.creatorVerdict me s access v).getD (r.deleterVerdict me s access v)

inductive DeleteVerdict where
  | refuse
  | done
  | stamp
  deriving DecidableEq

/-- Whether `me` may delete a version. Its creator must not be another active transaction, and
another transaction's stamp may be replaced only if that transaction was rolled back. -/
def deleteVerdict (r : Registry) (me : TxId) (v : Version) : DeleteVerdict :=
  if v.creator ≠ me ∧ r.status v.creator = .active then .refuse
  else match v.deleter with
    | none => .stamp
    | some deleter =>
      if deleter = me then .done
      else if r.status deleter = .ended .aborted then .stamp
      else .refuse

end Registry

end SnapshotSql
