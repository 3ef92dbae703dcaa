import SnapshotSql.Proofs.Query.Grouping
/-! # Streams of queries -/

namespace SnapshotSql

/-- The versions of a table that are visible for reading. -/
def Reader.visible (R : Reader) (id : TableId) : List Version :=
  (R.versions id).filter fun v => R.see .read v = .visible

namespace QueryTree

def ReadOnly : QueryTree → Prop
  | scan s => s.access = .read
  | literal _ => True
  | join left right => left.ReadOnly ∧ right.ReadOnly
  | filter _ _ input => input.ReadOnly
  | project _ input => input.ReadOnly
  | aggregate _ _ input => input.ReadOnly
  | sort _ input => input.ReadOnly
  | rename _ input => input.ReadOnly
  | cached input => input.ReadOnly

variable {R : Reader} {s : Stream} {rs out : List Row}

private theorem shows_ofVersions {see : Version → Visibility} {view : Version → RowView}
    (hsee : ∀ v, see v ≠ .contested) {vs : List Version}
    (h : ((vs.filter fun v => see v = .visible).mapM fun v => (view v).copy) = .ok rs) :
    (Stream.ofVersions see view vs).Shows rs := by
  induction vs generalizing rs with
  | nil =>
    cases h
    exact .done
  | cons v vs ih =>
    rw [List.filter_cons] at h
    rw [Stream.ofVersions]
    cases hv : see v with
    | invisible =>
      simp only [hv] at h
      exact ih h
    | contested => exact absurd hv (hsee v)
    | visible =>
      simp only [hv, decide_true, if_true] at h
      obtain ⟨r, rest, hr, hrest, rfl⟩ := mapM_eq_ok_cons h
      exact .row hr (ih hrest)

private theorem copy_select {items : List SelectItem} {v : RowView} {r r' : Row}
    (hv : v.copy = .ok r) (h : r.select items = .ok r') : (RowView.projected items v).copy = .ok r' := by
  obtain ⟨values, hvalues, h⟩ := bind_eq_ok.mp h
  cases h
  exact RowView.copy_projected hv hvalues

private theorem ofView_eq {keys : List SortKey} {v : RowView} {r : Row} (hv : v.copy = .ok r) :
    KeyedRow.ofView keys v .row = KeyedRow.ofRow keys r := by
  rw [KeyedRow.ofView, KeyedRow.ofRow, RowView.evalAll_of_copy hv]
  cases r.evalAll (keys.map (·.expr)) with
  | error e => rfl
  | ok values =>
    simp only [bind, Except.bind, hv]

private theorem shows_sorted {keys : List SortKey} {keyed arranged : List KeyedRow} (h : s.Shows rs)
    (hkeyed : rs.mapM (KeyedRow.ofRow keys) = .ok keyed)
    (hstable : KeyedRow.stable keys keyed = .ok arranged) :
    s.fold (Operator.collectKeyed keys {}) #[] = .ok keyed.toArray ∧
      ∃ out, KeyedRow.sorted keys keyed = .ok out ∧
        (Stream.replay out.toList).Shows (arranged.map (·.row)) := by
  constructor
  · have hfold := foldlM_push hkeyed #[]
    rw [Array.empty_append] at hfold
    rw [← hfold]
    refine Stream.fold_of_shows (fun acc v r hv => ?_) h #[]
    rw [Operator.collectKeyed, ofView_eq hv]
  · have hsorted := KeyedRow.sorted_of_stable hstable
    have hmem : ∀ k ∈ arranged, k.step = .row ∧ k.row.names.length = k.row.values.length := by
      intro k hk
      obtain ⟨k', hk', hpair⟩ := List.mem_map.mp ((KeyedRow.sorted_perm hsorted).mem_iff.mp
        (List.mem_map_of_mem (f := fun r : KeyedRow => (r.row, r.step)) hk))
      obtain ⟨r, hr, hof⟩ := mem_of_mapM hkeyed hk'
      obtain ⟨values, _, hof⟩ := bind_eq_ok.mp hof
      cases hof
      obtain ⟨hrow, hstep⟩ := Prod.mk.inj hpair
      rw [← hrow, ← hstep]
      exact ⟨rfl, Stream.length_of_shows h hr⟩
    have hlengths : ∀ r ∈ arranged.map (·.row), r.names.length = r.values.length := by
      intro r hr
      obtain ⟨k, hk, rfl⟩ := List.mem_map.mp hr
      exact (hmem k hk).2
    have hsteps : arranged.map (fun r => (r.row, r.step)) =
        (arranged.map (·.row)).map fun r => (r, .row) := by
      rw [List.map_map]
      refine List.map_congr_left fun k hk => ?_
      rw [(hmem k hk).1]
      rfl
    rw [hsteps] at hsorted
    exact ⟨_, hsorted, Stream.shows_replay hlengths⟩

private theorem shows_collected (h : s.Shows rs) :
    ∃ rows, s.fold (Operator.collectRow {}) #[] = .ok rows ∧ (Stream.replay rows.toList).Shows rs := by
  have hpairs : rs.mapM (fun r => (.ok (r, .row) : Except ExecError (Row × Step))) =
      .ok (rs.map fun r => (r, .row)) := List.mapM_pure
  refine ⟨_, (Stream.fold_of_shows (fun acc v r hv => ?_) h #[]).trans (foldlM_push hpairs #[]), ?_⟩
  · rw [Operator.collectRow, hv]
    rfl
  · rw [Array.empty_append]
    exact Stream.shows_replay fun r hr => Stream.length_of_shows h hr

theorem stream_of_rows (hR : ∀ v, R.see .read v ≠ .contested) {q : QueryTree} (hq : q.ReadOnly)
    (h : q.rows R.visible = .ok rs) : ∃ s, q.stream R = .ok s ∧ s.Shows rs := by
  induction q generalizing rs with
  | scan s =>
    obtain ⟨all, hall, h⟩ := bind_eq_ok.mp h
    refine ⟨_, rfl, ?_⟩
    have hversions : (Stream.ofVersions (R.see s.access) s.view (R.versions s.table)).Shows all := by
      rw [show s.access = .read from hq]
      exact shows_ofVersions hR hall
    refine Stream.shows_sift (fun v r hv => ?_) hversions h
    rw [RowView.holdsAll_joined_empty, RowView.holdsAll_of_copy hv]
  | filter condition policy q ih =>
    obtain ⟨all, hall, h⟩ := bind_eq_ok.mp h
    obtain ⟨s, hs, hshows⟩ := ih hq hall
    refine ⟨_, by rw [stream, hs]; rfl, ?_⟩
    refine Stream.shows_sift (fun v r hv => ?_) hshows h
    rw [RowView.holds_joined_empty, RowView.holds_of_copy hv]
  | literal items =>
    obtain ⟨r, hr, h⟩ := bind_eq_ok.mp h
    cases h
    refine ⟨_, rfl, ?_⟩
    have hempty : (Stream.replay StringList.singleEmptyRow.buffer.rows.toList).Shows
        [{ names := [.plain ""], values := [.text ""] }] :=
      .row (RowView.copy_owned rfl) .done
    refine Stream.shows_map (fun v r r' => copy_select) hempty ?_
    rw [List.mapM_cons, hr]
    rfl
  | project items q ih =>
    obtain ⟨all, hall, h⟩ := bind_eq_ok.mp h
    obtain ⟨s, hs, hshows⟩ := ih hq hall
    refine ⟨_, by rw [stream, hs]; rfl, ?_⟩
    exact Stream.shows_map (fun v r r' => copy_select) hshows h
  | join left right ihl ihr =>
    obtain ⟨ls, hls, h⟩ := bind_eq_ok.mp h
    obtain ⟨pairs, hpairs, h⟩ := bind_eq_ok.mp h
    obtain ⟨s, hs, hshows⟩ := ihl hq.1 hls
    cases h
    refine ⟨_, by rw [stream, hs]; rfl, ?_⟩
    exact Stream.shows_joinWith (fun rs hrs => ihr hq.2 hrs) hshows hpairs
  | aggregate groupBy calls q ih =>
    obtain ⟨all, hall, h⟩ := bind_eq_ok.mp h
    obtain ⟨keyed, hkeyed, h⟩ := bind_eq_ok.mp h
    obtain ⟨s, hs, hshows⟩ := ih hq hall
    obtain ⟨groups, hgroups, hout⟩ := Group.shows_outputs hshows hkeyed h
    exact ⟨_, by rw [stream, hs]; simp only [bind, Except.bind, hgroups]; rfl, hout⟩
  | sort keys q ih =>
    obtain ⟨all, hall, h⟩ := bind_eq_ok.mp h
    obtain ⟨keyed, hkeyed, h⟩ := bind_eq_ok.mp h
    obtain ⟨arranged, hstable, h⟩ := bind_eq_ok.mp h
    obtain ⟨s, hs, hshows⟩ := ih hq hall
    obtain ⟨hrows, out, hsorted, hout⟩ := shows_sorted hshows hkeyed hstable
    cases h
    exact ⟨_, by rw [stream, hs]; simp only [bind, Except.bind, hrows, hsorted]; rfl, hout⟩
  | rename qualifier q ih =>
    obtain ⟨all, hall, h⟩ := bind_eq_ok.mp h
    obtain ⟨s, hs, hshows⟩ := ih hq hall
    cases h
    refine ⟨_, by rw [stream, hs]; rfl, ?_⟩
    refine Stream.shows_map (g := fun r => .ok (r.renamed qualifier)) ?_ hshows List.mapM_pure
    intro v r r' hv hr
    cases hr
    exact RowView.copy_qualified qualifier hv
  | cached q ih =>
    obtain ⟨s, hs, hshows⟩ := ih hq h
    obtain ⟨rows, hrows, hout⟩ := shows_collected hshows
    exact ⟨_, by rw [stream, hs]; simp only [bind, Except.bind, hrows]; rfl, hout⟩

end QueryTree

end SnapshotSql
