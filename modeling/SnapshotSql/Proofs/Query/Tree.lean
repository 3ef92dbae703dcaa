import SnapshotSql.Operator.Iterate
import SnapshotSql.Proofs.Query.Stream
import SnapshotSql.Proofs.StableSort.Sort
/-! # Queries -/

namespace SnapshotSql

/-- The versions of every table, and how a transaction sees them. -/
structure Reader where
  versions : TableId → List Version
  see : Access → Version → Visibility

/-- A tree of reading operators. The progress of its scans is disregarded. -/
inductive QueryTree where
  | scan (s : TableScan)
  | filter (condition : Expr) (policy : ConflictPolicy) (input : QueryTree)
  | literal (items : List SelectItem)
  | project (items : List SelectItem) (input : QueryTree)
  | join (left right : QueryTree)
  | aggregate (groupBy : List Expr) (calls : List AggregateCall) (input : QueryTree)
  | sort (keys : List SortKey) (input : QueryTree)
  | rename (qualifier : String) (input : QueryTree)
  | cached (input : QueryTree)

namespace Stream

def ofVersions (see : Version → Visibility) (view : Version → RowView) : List Version → Stream
  | [] => done
  | v :: vs =>
    match see v with
    | .invisible => ofVersions see view vs
    | seen => row (view v) (seen = .contested) (ofVersions see view vs)

/-- The rows that pass a test, and under one policy the contested ones that fail it. -/
def sift (policy : ConflictPolicy) (test : RowView → Except ExecError Bool) (s : Stream) : Stream :=
  s.filter fun v c => (test v).map (· || TableScan.surfaces policy (.of c))

theorem sift_row (policy : ConflictPolicy) (test : RowView → Except ExecError Bool) (v : RowView)
    (c : Bool) (rest : Stream) :
    (row v c rest).sift policy test =
      match test v with
      | .error e => fail e
      | .ok passed =>
        if passed || TableScan.surfaces policy (.of c) then row v c (rest.sift policy test)
        else rest.sift policy test := by
  simp only [sift, filter]
  cases test v with
  | error e => rfl
  | ok passed =>
    simp only [Except.map]
    cases passed || TableScan.surfaces policy (.of c) <;> rfl

/-- The rows of a scan. -/
def ofScan (R : Reader) (s : TableScan) : Stream :=
  (ofVersions (R.see s.access) s.view (R.versions s.table)).sift s.policy fun v =>
    (RowView.joined v .empty).holdsAll s.predicates

def pairs (l : RowView) (lc : Bool) : Except ExecError Stream → Stream
  | .error e => fail e
  | .ok t => t.map fun r rc => (.joined l r, lc || rc)

/-- Each row joined with every row of another stream, which is opened again for each. -/
def joinWith (touches : Bool) (right : Except ExecError Stream) (s : Stream) : Stream :=
  s.bind fun l lc => (pairs l lc right).touchIf touches

end Stream

namespace QueryTree

/-- The operators of a query that has not run yet. -/
def operator : QueryTree → Operator
  | scan s => .tableScan s
  | filter condition policy input => .predicate condition policy [input.operator]
  | literal items => .project items [] none
  | project items input => .project items [input.operator] none
  | join left right => .join left.operator right.operator {}
  | aggregate groupBy calls input => .aggregate groupBy calls input.operator {}
  | sort keys input => .sort keys input.operator {}
  | rename qualifier input => .subQuery qualifier input.operator
  | cached input => .cached input.operator {} none

def scans : QueryTree → List TableScan
  | scan s => [s]
  | literal _ => []
  | join left right => left.scans ++ right.scans
  | filter _ _ input => input.scans
  | project _ input => input.scans
  | aggregate _ _ input => input.scans
  | sort _ input => input.scans
  | rename _ input => input.scans
  | cached input => input.scans

def Fresh : QueryTree → Prop
  | scan s => s.opened = none
  | literal _ => True
  | join left right => left.Fresh ∧ right.Fresh
  | filter _ _ input => input.Fresh
  | project _ input => input.Fresh
  | aggregate _ _ input => input.Fresh
  | sort _ input => input.Fresh
  | rename _ input => input.Fresh
  | cached input => input.Fresh

mutual

def touches (R : Reader) : QueryTree → Bool
  | scan _ => true
  | filter _ _ input => input.touches R
  | literal _ => false
  | project _ input => input.touches R
  | join left _ => left.touches R
  | aggregate groupBy calls input =>
    input.touches R || Stream.readTouches (Group.feedGroups groupBy calls) #[] (input.stream R)
  | sort keys input =>
    input.touches R || Stream.readTouches (Operator.collectKeyed keys {}) #[] (input.stream R)
  | rename _ input => input.touches R
  | cached input =>
    input.touches R || Stream.readTouches (Operator.collectRow {}) #[] (input.stream R)

/-- What a query yields for a reader: a failure when it is opened, or a stream. -/
def stream (R : Reader) : QueryTree → Except ExecError Stream
  | scan s => .ok (.ofScan R s)
  | filter condition policy input => do
    let s ← input.stream R
    pure (s.sift policy fun v => (RowView.joined v .empty).holds condition)
  | literal items =>
    .ok ((Stream.replay StringList.singleEmptyRow.buffer.rows.toList).map fun v c =>
      (.projected items v, c))
  | project items input => do
    let s ← input.stream R
    pure (s.map fun v c => (.projected items v, c))
  | join left right => do
    let s ← left.stream R
    pure (s.joinWith (right.touches R) (right.stream R))
  | aggregate groupBy calls input => do
    let s ← input.stream R
    let groups ← s.fold (Group.feedGroups groupBy calls) #[]
    pure (.replay (Group.outputs groupBy calls groups).toList)
  | sort keys input => do
    let s ← input.stream R
    let keyed ← s.fold (Operator.collectKeyed keys {}) #[]
    let rows ← KeyedRow.sorted keys keyed.toList
    pure (.replay rows.toList)
  | rename qualifier input => do
    let s ← input.stream R
    pure (s.map fun v c => (.qualified qualifier v, c))
  | cached input => do
    let s ← input.stream R
    let rows ← s.fold (Operator.collectRow {}) #[]
    pure (.replay rows.toList)

end

/-- A bound on the rows that a query yields. -/
def size (R : Reader) : QueryTree → Nat
  | scan s => (R.versions s.table).length
  | filter _ _ input => input.size R
  | literal _ => 1
  | project _ input => input.size R
  | join left right => left.size R * right.size R
  | aggregate _ _ input => input.size R + 1
  | sort _ input => input.size R
  | rename _ input => input.size R
  | cached input => input.size R

/-- Nested steps that suffice for one call on any operator of a query. -/
def fuel (R : Reader) : QueryTree → Nat
  | scan _ => 1
  | literal _ => 1
  | join left right =>
    Operator.passBound (left.size R) (left.fuel R) + Operator.passBound (right.size R) (right.fuel R)
  | filter _ _ input => Operator.passBound (input.size R) (input.fuel R)
  | project _ input => Operator.passBound (input.size R) (input.fuel R)
  | aggregate _ _ input => Operator.passBound (input.size R) (input.fuel R)
  | sort _ input => Operator.passBound (input.size R) (input.fuel R)
  | rename _ input => Operator.passBound (input.size R) (input.fuel R)
  | cached input => Operator.passBound (input.size R) (input.fuel R)

end QueryTree

namespace Stream

theorem length_ofVersions (see : Version → Visibility) (view : Version → RowView)
    (vs : List Version) : (ofVersions see view vs).length ≤ vs.length := by
  induction vs with
  | nil => exact Nat.le_refl 0
  | cons v vs ih =>
    unfold ofVersions
    split
    · exact Nat.le_succ_of_le ih
    · exact Nat.succ_le_succ ih

theorem length_joinWith {touches : Bool} {right : Except ExecError Stream} {n : Nat}
    (h : ∀ t, right = .ok t → t.length ≤ n) (s : Stream) :
    (s.joinWith touches right).length ≤ s.length * n := by
  apply length_bind
  intro l lc
  rw [length_touchIf]
  cases right with
  | error e => exact Nat.zero_le n
  | ok t =>
    rw [pairs, length_map]
    exact h t rfl

end Stream

namespace Group

theorem size_feedGroups {groupBy : List Expr} {calls : List AggregateCall} {groups after : Array Group}
    {view : RowView} {step : Step} (h : feedGroups groupBy calls groups view step = .ok after) :
    after.size ≤ groups.size + 1 := by
  unfold feedGroups at h
  cases hkey : view.evalAll groupBy with
  | error e => simp [hkey, bind, Except.bind] at h
  | ok key =>
    simp only [hkey, bind, Except.bind] at h
    split at h
    · split at h
      · cases h
      · cases h
        simp
    · split at h
      · cases h
      · cases h
        simp

theorem size_outputs (groupBy : List Expr) (calls : List AggregateCall) (groups : Array Group) :
    (outputs groupBy calls groups).size ≤ max groups.size 1 := by
  unfold outputs
  split
  · simp only [Array.size_map]
    exact Nat.le_max_right _ 1
  · simp only [Array.size_map]
    exact Nat.le_max_left _ 1

theorem uncontested_feedGroups {groupBy : List Expr} {calls : List AggregateCall}
    {groups groups' : Array Group} {v : RowView} (h : ∀ g ∈ groups, g.contested = false)
    (hfeed : feedGroups groupBy calls groups v .row = .ok groups') :
    ∀ g ∈ groups', g.contested = false := by
  have hgroup : ∀ {g g' : Group}, g.contested = false → g.feed calls v .row = .ok g' →
      g'.contested = false := by
    intro g g' hg hfeed
    obtain ⟨accumulators, _, hfeed⟩ := bind_eq_ok.mp hfeed
    cases hfeed
    show (g.contested || decide (Step.row = Step.contested)) = false
    rw [hg]
    rfl
  obtain ⟨key, _, hfeed⟩ := bind_eq_ok.mp hfeed
  split at hfeed
  · rename_i i hi
    obtain ⟨g, hg, hfeed⟩ := bind_eq_ok.mp hfeed
    cases hfeed
    intro g' hg'
    rcases Array.mem_or_eq_of_mem_setIfInBounds hg' with hg' | rfl
    · exact h g' hg'
    · refine hgroup ?_ hg
      cases hget : groups[i]? with
      | none => rfl
      | some old => exact h old (Array.mem_of_getElem? hget)
  · obtain ⟨g, hg, hfeed⟩ := bind_eq_ok.mp hfeed
    cases hfeed
    intro g' hg'
    rcases Array.mem_push.mp hg' with hg' | rfl
    · exact h g' hg'
    · exact hgroup (g := create calls key) rfl hg

theorem step_outputs {groupBy : List Expr} {calls : List AggregateCall} {groups : Array Group}
    (h : ∀ g ∈ groups, g.contested = false) : ∀ r ∈ outputs groupBy calls groups, r.2 = .row := by
  intro r hr
  obtain ⟨g, hg, rfl⟩ := Array.mem_map.mp hr
  have hg : g.contested = false := by
    split at hg
    · cases Array.mem_singleton.mp hg
      rfl
    · exact h g hg
  simp [output, hg]

theorem outputs_ne_done (groupBy : List Expr) (calls : List AggregateCall) (groups : Array Group) :
    ∀ r ∈ outputs groupBy calls groups, r.2 ≠ .done := by
  intro r hr
  obtain ⟨g, _, rfl⟩ := Array.mem_map.mp hr
  cases hg : g.contested <;> simp [output, hg]

end Group

/-- What holds of the steps of all rows copied so far still does after one more. -/
theorem Operator.step_collectRow {p : Step → Prop} {db : Database} {rows rows' : Array (Row × Step)}
    {v : RowView} {step : Step} (h : ∀ r ∈ rows, p r.2) (hstep : p step)
    (hadd : collectRow db rows v step = .ok rows') : ∀ r ∈ rows', p r.2 := by
  obtain ⟨copy, _, hadd⟩ := bind_eq_ok.mp hadd
  cases hadd
  intro r hr
  rcases Array.mem_push.mp hr with hr | rfl
  · exact h r hr
  · exact hstep

namespace KeyedRow

/-- What holds of the steps of all rows taken in so far still does after one more. -/
theorem step_collectKeyed {p : Step → Prop} {keys : List SortKey} {db : Database}
    {rows rows' : Array KeyedRow} {v : RowView} {step : Step} (h : ∀ k ∈ rows, p k.step)
    (hstep : p step) (hadd : Operator.collectKeyed keys db rows v step = .ok rows') :
    ∀ k ∈ rows', p k.step := by
  obtain ⟨keyed, hkeyed, hadd⟩ := bind_eq_ok.mp hadd
  cases hadd
  obtain ⟨values, _, hkeyed⟩ := bind_eq_ok.mp hkeyed
  obtain ⟨copy, _, hkeyed⟩ := bind_eq_ok.mp hkeyed
  cases hkeyed
  intro k hk
  rcases Array.mem_push.mp hk with hk | rfl
  · exact h k hk
  · exact hstep

theorem sorted_eq_ok {keys : List SortKey} {rows : List KeyedRow} {out : Array (Row × Step)} :
    sorted keys rows = .ok out ↔ ∃ arranged, StableSort.sort (before keys) rows = some arranged ∧
      out = (arranged.map fun r => (r.row, r.step)).toArray := by
  rw [sorted]
  cases StableSort.sort (before keys) rows with
  | none => exact ⟨nofun, fun ⟨_, h, _⟩ => nomatch h⟩
  | some arranged =>
    constructor
    · intro h
      cases h
      exact ⟨arranged, rfl, rfl⟩
    · rintro ⟨_, h, rfl⟩
      cases h
      rfl

theorem sorted_perm {keys : List SortKey} {rows : List KeyedRow} {out : Array (Row × Step)}
    (h : sorted keys rows = .ok out) : out.toList.Perm (rows.map fun r => (r.row, r.step)) := by
  obtain ⟨arranged, hsort, rfl⟩ := sorted_eq_ok.mp h
  exact (StableSort.sort_perm hsort).map _

theorem step_sorted {p : Step → Prop} {keys : List SortKey} {rows : Array KeyedRow}
    {out : Array (Row × Step)} (h : ∀ k ∈ rows, p k.step) (hsorted : sorted keys rows.toList = .ok out) :
    ∀ r ∈ out, p r.2 := by
  intro r hr
  obtain ⟨k, hk, rfl⟩ := List.mem_map.mp
    ((sorted_perm hsorted).mem_iff.mp (Array.mem_toList_iff.mpr hr))
  exact h k (Array.mem_toList_iff.mp hk)

theorem length_sorted {keys : List SortKey} {rows : List KeyedRow} {out : Array (Row × Step)}
    (h : sorted keys rows = .ok out) : out.toList.length = rows.length := by
  rw [(sorted_perm h).length_eq, List.length_map]

end KeyedRow

namespace QueryTree

private theorem size_collectRow {db : Database} {rows after : Array (Row × Step)} {view : RowView}
    {step : Step} (h : Operator.collectRow db rows view step = .ok after) :
    after.size ≤ rows.size + 1 := by
  obtain ⟨row, _, h⟩ := bind_eq_ok.mp h
  cases h
  rw [Array.size_push]

private theorem size_collectKeyed {keys : List SortKey} {db : Database}
    {rows after : Array KeyedRow} {view : RowView} {step : Step}
    (h : Operator.collectKeyed keys db rows view step = .ok after) :
    after.size ≤ rows.size + 1 := by
  obtain ⟨row, _, h⟩ := bind_eq_ok.mp h
  cases h
  rw [Array.size_push]

theorem length_stream (R : Reader) (q : QueryTree) {s : Stream} (h : q.stream R = .ok s) :
    s.length ≤ q.size R := by
  induction q generalizing s with
  | scan scan =>
    cases h
    exact Nat.le_trans (Stream.length_filter _ _) (Stream.length_ofVersions _ _ _)
  | filter condition policy input ih =>
    obtain ⟨t, ht, h⟩ := bind_eq_ok.mp h
    cases h
    exact Nat.le_trans (Stream.length_filter _ _) (ih ht)
  | literal items =>
    cases h
    exact Nat.le_refl 1
  | project items input ih =>
    obtain ⟨t, ht, h⟩ := bind_eq_ok.mp h
    cases h
    rw [Stream.length_map]
    exact ih ht
  | join left right ihl ihr =>
    obtain ⟨t, ht, h⟩ := bind_eq_ok.mp h
    cases h
    exact Nat.le_trans (Stream.length_joinWith (fun _ hr => ihr hr) t)
      (Nat.mul_le_mul_right _ (ihl ht))
  | aggregate groupBy calls input ih =>
    obtain ⟨t, ht, h⟩ := bind_eq_ok.mp h
    obtain ⟨groups, hgroups, h⟩ := bind_eq_ok.mp h
    cases h
    have hlen := Stream.fold_le Array.size (fun _ _ _ _ => Group.size_feedGroups) t #[] groups hgroups
    have hout := Group.size_outputs groupBy calls groups
    have hin := ih ht
    rw [Stream.length_replay, Array.length_toList]
    simp only [Array.size_empty] at hlen
    rw [size]
    omega
  | sort keys input ih =>
    obtain ⟨t, ht, h⟩ := bind_eq_ok.mp h
    obtain ⟨rows, hrows, h⟩ := bind_eq_ok.mp h
    obtain ⟨out, hsorted, h⟩ := bind_eq_ok.mp h
    cases h
    have hlen := Stream.fold_le Array.size (fun _ _ _ _ => size_collectKeyed) t #[] rows hrows
    have hin := ih ht
    rw [Stream.length_replay, KeyedRow.length_sorted hsorted, Array.length_toList]
    simp only [Array.size_empty] at hlen
    rw [size]
    omega
  | rename qualifier input ih =>
    obtain ⟨t, ht, h⟩ := bind_eq_ok.mp h
    cases h
    rw [Stream.length_map]
    exact ih ht
  | cached input ih =>
    obtain ⟨t, ht, h⟩ := bind_eq_ok.mp h
    obtain ⟨rows, hrows, h⟩ := bind_eq_ok.mp h
    cases h
    have hlen := Stream.fold_le Array.size (fun _ _ _ _ => size_collectRow) t #[] rows hrows
    have hin := ih ht
    rw [Stream.length_replay, Array.length_toList]
    simp only [Array.size_empty] at hlen
    rw [size]
    omega

end QueryTree

end SnapshotSql
