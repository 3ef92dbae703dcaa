import SnapshotSql.Proofs.Query.Rearranged
import SnapshotSql.Proofs.Query.Renumber
/-! # Queries over shuffled tables -/

namespace SnapshotSql

theorem AggregateCall.input_renumber (call : AggregateCall) (g : RowId → RowId) (v : RowView) :
    call.input (v.renumber g) = call.input v := by
  unfold input
  cases call.arg with
  | none => rfl
  | some e => simp only [RowView.eval_renumber]

def unnumbered (r : RowView × Bool) : RowView × Bool := (r.1.renumber anyRid, r.2)

/-- The same rows in some other order, up to their ids. -/
def Shuffled (rows rows' : List (RowView × Bool)) : Prop :=
  (rows.map unnumbered).Perm (rows'.map unnumbered)

namespace Shuffled

variable {rows rows' ls ls' rs rs' : List (RowView × Bool)}

theorem refl (rows : List (RowView × Bool)) : Shuffled rows rows := List.Perm.refl _

theorem isEmpty_eq (h : Shuffled rows rows') : rows.isEmpty = rows'.isEmpty := by
  simpa only [List.isEmpty_map] using List.Perm.isEmpty_eq h

theorem symm (h : Shuffled rows rows') : Shuffled rows' rows := List.Perm.symm h

theorem trans (h : Shuffled rows ls) (h' : Shuffled ls rows') : Shuffled rows rows' := List.Perm.trans h h'

theorem of_perm (h : rows.Perm rows') : Shuffled rows rows' := h.map unnumbered

theorem filterMap_perm {β : Type} {f : RowView × Bool → Option β} (hf : ∀ r, f (unnumbered r) = f r)
    (h : Shuffled rows rows') : (rows.filterMap f).Perm (rows'.filterMap f) := by
  have hf : f = f ∘ unnumbered := funext fun r => (hf r).symm
  rw [hf, ← List.filterMap_map, ← List.filterMap_map]
  exact List.Perm.filterMap f h

/-- Rows are still shuffled if each becomes another one, or is left out, whatever its id is. -/
theorem filterMap {f : RowView × Bool → Option (RowView × Bool)}
    (hf : ∀ r, f (unnumbered r) = (f r).map unnumbered) (h : Shuffled rows rows') :
    Shuffled (rows.filterMap f) (rows'.filterMap f) := by
  have hmap : ∀ rows : List (RowView × Bool),
      (rows.filterMap f).map unnumbered = (rows.map unnumbered).filterMap f := by
    intro rows
    rw [List.map_filterMap, List.filterMap_map]
    exact List.filterMap_congr fun r _ => (hf r).symm
  rw [Shuffled, hmap, hmap]
  exact List.Perm.filterMap f h

theorem map {f : RowView → RowView} (hf : ∀ v, (f v).renumber anyRid = f (v.renumber anyRid))
    (h : Shuffled rows rows') :
    Shuffled (rows.map fun r => (f r.1, r.2)) (rows'.map fun r => (f r.1, r.2)) := by
  have hmap : ∀ rows : List (RowView × Bool), (rows.map fun r => (f r.1, r.2)) =
      rows.filterMap fun r => some (f r.1, r.2) := fun rows => by rw [List.filterMap_eq_map']
  rw [hmap, hmap]
  exact h.filterMap fun r => congrArg some (Prod.ext (hf r.1).symm rfl)

theorem keepAll {test : RowView × Bool → Option Bool} (htest : ∀ r, test (unnumbered r) = test r)
    (h : Shuffled rows rows') (hkept : keepAll test rows = some ls) (hkept' : keepAll test rows' = some ls') :
    Shuffled ls ls' := by
  obtain ⟨-, rfl⟩ := keepAll_eq_some.mp hkept
  obtain ⟨-, rfl⟩ := keepAll_eq_some.mp hkept'
  have hfilter : ∀ rows : List (RowView × Bool), (rows.filter fun r => test r = some true) =
      rows.filterMap (Option.guard fun r => test r = some true) :=
    fun rows => by rw [List.filterMap_eq_filter]
  rw [hfilter, hfilter]
  refine h.filterMap fun r => ?_
  simp only [Option.guard, htest]
  split <;> rfl

theorem pairUp (hl : Shuffled ls ls') (hr : Shuffled rs rs') :
    Shuffled (pairUp ls rs) (pairUp ls' rs') := by
  have hmap : ∀ ls rs, (SnapshotSql.pairUp ls rs).map unnumbered =
      SnapshotSql.pairUp (ls.map unnumbered) (rs.map unnumbered) := by
    intro ls rs
    rw [SnapshotSql.pairUp, SnapshotSql.pairUp, List.map_flatMap, List.flatMap_map]
    refine List.flatMap_congr fun l _ => ?_
    rw [List.map_map, List.map_map]
    rfl
  rw [Shuffled, hmap, hmap]
  exact (List.Perm.flatMap_right _ hl).trans (List.Perm.flatMap_left _ fun l _ => List.Perm.map _ hr)

end Shuffled

namespace QueryTree

def listed (rows : List (RowView × Bool)) : List Operator.Listed := rows.map fun r => (r.1, .of r.2)

/-- No aggregation of the query calls anything that depends on the order of its rows, and equal keys are
the same. -/
def Orderless (R : Reader) : QueryTree → Prop
  | scan _ => True
  | literal _ => True
  | join left right => left.Orderless R ∧ right.Orderless R
  | filter _ _ input => input.Orderless R
  | project _ input => input.Orderless R
  | aggregate groupBy calls input => input.Orderless R ∧ ∀ rows, input.completed R = some rows →
      Group.ExactKeys groupBy (listed rows) ∧
        ∀ p ∈ Group.parts groupBy (listed rows), ∀ call ∈ calls, call.Orderless p.members
  | sort _ input => input.Orderless R
  | rename _ input => input.Orderless R
  | cached input => input.Orderless R

variable {R R' : Reader} {rows rows' out out' : List (RowView × Bool)}

theorem rearranged_listed (groupBy : List Expr) (calls : List AggregateCall) (h : Shuffled rows rows') :
    Group.Rearranged groupBy calls (listed rows) (listed rows') := by
  have hread : ∀ rows, (listed rows).map (Group.read groupBy calls) =
      rows.filterMap fun r => some (Group.read groupBy calls (r.1, .of r.2)) := by
    intro rows
    rw [listed, List.map_map, List.filterMap_eq_map']
    rfl
  rw [Group.Rearranged, hread, hread]
  refine h.filterMap_perm fun r => ?_
  simp only [Group.read, unnumbered, RowView.evalAll_renumber, AggregateCall.input_renumber]
  rfl

theorem gathered_of_aggregated {groupBy : List Expr} {calls : List AggregateCall}
    (h : (rows.foldlM (fun groups r => Group.feedGroups groupBy calls groups r.1 (.of r.2))
      #[]).toOption.map (fun groups => replayed (Group.outputs groupBy calls groups).toList) = some out) :
    ∃ outs, Group.gathered groupBy calls (listed rows) = .ok outs ∧ out = replayed outs := by
  obtain ⟨groups, hfold, rfl⟩ := Option.map_eq_some_iff.mp h
  have hlisted : (listed rows).foldlM (fun groups r => Group.feedGroups groupBy calls groups r.1 r.2) #[] =
      .ok groups := by
    rw [listed, List.foldlM_map]
    exact toOption_eq_some.mp hfold
  rcases Group.foldlM_feedGroups groupBy calls (listed rows) with
    ⟨gs, -, hgs, hfold'⟩ | ⟨e, -, hfold'⟩
  · cases hlisted.symm.trans hfold'
    exact ⟨_, Group.outputs_eq hgs, rfl⟩
  · cases hlisted.symm.trans hfold'

theorem toList_collected {β : Type} {f : RowView × Bool → Except ExecError β} {ys : Array β}
    (h : (rows.foldlM (fun (acc : Array β) r => do
      let y ← f r
      pure (acc.push y)) #[]).toOption = some ys) : ys.toList = rows.filterMap fun r => (f r).toOption := by
  rw [foldlM_push_eq] at h
  obtain ⟨ys', hys, rfl⟩ := map_eq_ok.mp (toOption_eq_some.mp h)
  simpa using filterMap_of_mapM hys

theorem sorted_shuffled {keys : List SortKey} {keyed : Array KeyedRow} {out : Array (Row × Step)}
    (h : rows.foldlM (fun rows r => Operator.collectKeyed keys {} rows r.1 (.of r.2)) #[] = .ok keyed)
    (hsorted : KeyedRow.sorted keys keyed.toList = .ok out) :
    Shuffled (replayed out.toList) (rows.filterMap fun r =>
      (KeyedRow.ofView keys r.1 (.of r.2)).toOption.map fun k => (.owned k.row, k.step = .contested)) := by
  have hkeyed : keyed.toList = rows.filterMap fun r => (KeyedRow.ofView keys r.1 (.of r.2)).toOption :=
    toList_collected (toOption_eq_some.mpr h)
  refine .of_perm (((KeyedRow.sorted_perm hsorted).map _).trans ?_)
  rw [hkeyed, List.map_filterMap, List.map_filterMap]
  refine .of_eq (List.filterMap_congr fun r _ => ?_)
  rw [Option.map_map]
  rfl

theorem replayed_copies {copies : Array (Row × Step)}
    (h : (rows.foldlM (fun rows r => Operator.collectRow {} rows r.1 (.of r.2))
      #[]).toOption = some copies) :
    replayed copies.toList = rows.filterMap fun r =>
      r.1.copy.toOption.map fun copy => (.owned copy, r.2) := by
  have hcopies : copies.toList = rows.filterMap fun r =>
      (r.1.copy.map fun copy => (copy, Step.of r.2)).toOption := by
    refine toList_collected (Eq.trans (congrArg Except.toOption (foldlM_congr (fun r _ acc => ?_) #[])) h)
    rw [Operator.collectRow]
    cases r.1.copy <;> rfl
  rw [hcopies, replayed, List.map_filterMap]
  refine List.filterMap_congr fun r _ => ?_
  cases r.1.copy with
  | error e => rfl
  | ok copy => cases r.2 <;> simp [Except.map, Except.toOption, Step.of]

theorem shuffled_seen {s : TableScan}
    (h : (R.shown anyRid s.access s.table).Perm (R'.shown anyRid s.access s.table)) :
    Shuffled ((R.seen s.access s.table).map fun r => (s.view r.1, r.2))
      ((R'.seen s.access s.table).map fun r => (s.view r.1, r.2)) := by
  have hshown : ∀ R : Reader, ((R.seen s.access s.table).map fun r => (s.view r.1, r.2)).map unnumbered =
      (R.shown anyRid s.access s.table).map fun r => (s.view r.1, r.2) := by
    intro R
    rw [Reader.shown, List.map_map, List.map_map]
    rfl
  rw [Shuffled, hshown, hshown]
  exact h.map _

theorem completed_shuffled {q : QueryTree} (hq : q.Orderless R)
    (hscans : ∀ s ∈ q.scans,
      (R.shown anyRid s.access s.table).Perm (R'.shown anyRid s.access s.table))
    (h : q.completed R = some rows) (h' : q.completed R' = some rows') : Shuffled rows rows' := by
  induction q generalizing rows rows' with
  | scan s =>
    rw [completed_scan] at h h'
    refine Shuffled.keepAll (fun r => ?_) ?_ h h'
    · simp only [Stream.passes, unnumbered, RowView.holdsAll_joined_empty, RowView.holdsAll_renumber]
    · exact shuffled_seen (hscans s (List.mem_singleton_self s))
  | filter condition policy q ih =>
    rw [completed_filter] at h h'
    obtain ⟨all, hall, h⟩ := Option.bind_eq_some_iff.mp h
    obtain ⟨all', hall', h'⟩ := Option.bind_eq_some_iff.mp h'
    refine Shuffled.keepAll (fun r => ?_) (ih hq hscans hall hall') h h'
    simp only [Stream.passes, unnumbered, RowView.holds_joined_empty, RowView.holds_renumber]
  | literal items =>
    cases h.symm.trans h'
    exact .refl rows
  | project items q ih =>
    rw [completed_project] at h h'
    obtain ⟨all, hall, rfl⟩ := Option.map_eq_some_iff.mp h
    obtain ⟨all', hall', rfl⟩ := Option.map_eq_some_iff.mp h'
    exact (ih hq hscans hall hall').map fun _ => rfl
  | rename qualifier q ih =>
    rw [completed_rename] at h h'
    obtain ⟨all, hall, rfl⟩ := Option.map_eq_some_iff.mp h
    obtain ⟨all', hall', rfl⟩ := Option.map_eq_some_iff.mp h'
    exact (ih hq hscans hall hall').map fun _ => rfl
  | join left right ihl ihr =>
    obtain ⟨ls, hls, hrows⟩ := completed_join_eq_some.mp h
    obtain ⟨ls', hls', hrows'⟩ := completed_join_eq_some.mp h'
    have hleft := ihl hq.1 (fun s hs => hscans s (List.mem_append_left _ hs)) hls hls'
    have hempty : ls = [] ↔ ls' = [] := by
      rw [← List.isEmpty_iff, ← List.isEmpty_iff, hleft.isEmpty_eq]
    rcases hrows with ⟨hnil, rfl⟩ | ⟨hne, rs, hrs, rfl⟩
    · rcases hrows' with ⟨-, rfl⟩ | ⟨hne', -⟩
      · exact .refl []
      · exact absurd (hempty.mp hnil) hne'
    · rcases hrows' with ⟨hnil', -⟩ | ⟨-, rs', hrs', rfl⟩
      · exact absurd (hempty.mpr hnil') hne
      · exact hleft.pairUp (ihr hq.2 (fun s hs => hscans s (List.mem_append_right _ hs)) hrs hrs')
  | aggregate groupBy calls q ih =>
    rw [completed_aggregate] at h h'
    obtain ⟨all, hall, h⟩ := Option.bind_eq_some_iff.mp h
    obtain ⟨all', hall', h'⟩ := Option.bind_eq_some_iff.mp h'
    obtain ⟨outs, houts, rfl⟩ := gathered_of_aggregated h
    obtain ⟨outs', houts', rfl⟩ := gathered_of_aggregated h'
    obtain ⟨hkeys, hcalls⟩ := hq.2 all hall
    have hrearranged := rearranged_listed groupBy calls (ih hq.1 hscans hall hall')
    exact .of_perm ((Group.gathered_perm hrearranged hkeys hcalls houts houts').map _)
  | sort keys q ih =>
    obtain ⟨all, keyed, rows, hall, hkeyed, hrows, rfl⟩ := completed_sort_eq_some h
    obtain ⟨all', keyed', rows', hall', hkeyed', hrows', rfl⟩ := completed_sort_eq_some h'
    refine (sorted_shuffled hkeyed hrows).trans (.trans ?_ (sorted_shuffled hkeyed' hrows').symm)
    refine (ih hq hscans hall hall').filterMap fun r => ?_
    simp only [KeyedRow.ofView, unnumbered, RowView.evalAll_renumber, RowView.copy_renumber]
    cases r.1.evalAll (keys.map (·.expr)) with
    | error e => rfl
    | ok values => cases r.1.copy <;> rfl
  | cached q ih =>
    rw [completed_cached] at h h'
    obtain ⟨all, hall, h⟩ := Option.bind_eq_some_iff.mp h
    obtain ⟨all', hall', h'⟩ := Option.bind_eq_some_iff.mp h'
    obtain ⟨copies, hcopies, rfl⟩ := Option.map_eq_some_iff.mp h
    obtain ⟨copies', hcopies', rfl⟩ := Option.map_eq_some_iff.mp h'
    rw [replayed_copies hcopies, replayed_copies hcopies']
    refine (ih hq hscans hall hall').filterMap fun r => ?_
    simp only [unnumbered, RowView.copy_renumber]
    cases r.1.copy <;> rfl

end QueryTree

end SnapshotSql
