import SnapshotSql.Proofs.Query.Raising
import SnapshotSql.Proofs.Query.Tree
/-! # The rows and failures of a query -/

namespace SnapshotSql

variable {P : ExecError → Prop}

/-! ## Streams -/

namespace Stream

variable {V W U : RowView → Prop}

/-- All rows of the stream are such views, and a failure at its end is of this kind. -/
def Each (V : RowView → Prop) (P : ExecError → Prop) : Stream → Prop
  | done => True
  | fail e => P e
  | row v _ rest => V v ∧ rest.Each V P
  | touch rest => rest.Each V P

theorem each_mono (hVW : ∀ v, V v → W v) {s : Stream} (hs : s.Each V P) : s.Each W P := by
  induction s with
  | done => exact hs
  | fail e => exact hs
  | row v c rest ih => exact ⟨hVW v hs.1, ih hs.2⟩
  | touch rest ih => exact ih hs

theorem each_touchIf {opened : Bool} {s : Stream} (hs : s.Each V P) :
    (s.touchIf opened).Each V P := by
  cases opened <;> exact hs

theorem each_append {s t : Stream} (hs : s.Each V P) (ht : t.Each V P) : (s.append t).Each V P := by
  induction s with
  | done => exact ht
  | fail e => exact hs
  | row v c rest ih => exact ⟨hs.1, ih hs.2⟩
  | touch rest ih => exact ih hs

theorem each_map {f : RowView → Bool → RowView × Bool} (hf : ∀ v c, V v → W (f v c).1) {s : Stream}
    (hs : s.Each V P) : (s.map f).Each W P := by
  induction s with
  | done => exact hs
  | fail e => exact hs
  | row v c rest ih => exact ⟨hf v c hs.1, ih hs.2⟩
  | touch rest ih => exact ih hs

theorem each_sift {policy : ConflictPolicy} {test : RowView → Except ExecError Bool}
    (htest : ∀ v, V v → Raises P (test v)) {s : Stream} (hs : s.Each V P) :
    (s.sift policy test).Each V P := by
  induction s with
  | done => exact hs
  | fail e => exact hs
  | row v c rest ih =>
    rw [sift_row]
    split
    · rename_i e he
      exact htest v hs.1 e he
    · split
      · exact ⟨hs.1, ih hs.2⟩
      · exact ih hs.2
  | touch rest ih => exact ih hs

/-- Taking in the rows fails where a step does, and keeps what each step keeps. -/
theorem each_fold {σ : Type} {I : σ → Prop} {f : σ → RowView → Step → Except ExecError σ}
    (hf : ∀ acc v step, I acc → V v →
      Raises P (f acc v step) ∧ ∀ acc', f acc v step = .ok acc' → I acc')
    {s : Stream} (hs : s.Each V P) {acc : σ} (hacc : I acc) :
    Raises P (s.fold f acc) ∧ ∀ acc', s.fold f acc = .ok acc' → I acc' := by
  induction s generalizing acc with
  | done =>
    refine ⟨.ok acc, ?_⟩
    rintro acc' ⟨⟩
    exact hacc
  | fail e =>
    refine ⟨.error hs, ?_⟩
    rintro acc' ⟨⟩
  | row v c rest ih =>
    obtain ⟨hraises, hkeeps⟩ := hf acc v (.of c) hacc hs.1
    rw [fold]
    split
    · rename_i e he
      refine ⟨.error (hraises e he), ?_⟩
      rintro acc' ⟨⟩
    · rename_i acc' hacc'
      exact ih hs.2 (hkeeps acc' hacc')
  | touch rest ih => exact ih hs hacc

theorem each_ofVersions {see : Version → Visibility} {view : Version → RowView} {vs : List Version}
    (h : ∀ v ∈ vs, V (view v)) : (ofVersions see view vs).Each V P := by
  induction vs with
  | nil => trivial
  | cons v vs ih =>
    rw [List.forall_mem_cons] at h
    unfold ofVersions
    split
    · exact ih h.2
    · exact ⟨h.1, ih h.2⟩

theorem each_replay {rows : List (Row × Step)} (h : ∀ r ∈ rows, V (.owned r.1)) :
    (replay rows).Each V P := by
  induction rows with
  | nil => trivial
  | cons r rows ih =>
    rw [List.forall_mem_cons] at h
    exact ⟨h.1, ih h.2⟩

theorem each_joinWith {touches : Bool} {right : Except ExecError Stream} (hraises : Raises P right)
    (hright : ∀ t, right = .ok t → t.Each W P) (hjoin : ∀ v w, V v → W w → U (.joined v w))
    {s : Stream} (hs : s.Each V P) : (s.joinWith touches right).Each U P := by
  induction s with
  | done => exact hs
  | fail e => exact hs
  | row v c rest ih =>
    apply each_append (each_touchIf ?_) (ih hs.2)
    cases right with
    | error e => exact hraises e rfl
    | ok t => exact each_map (fun w _ => hjoin v w hs.1) (hright t rfl)
  | touch rest ih => exact ih hs

end Stream

/-! ## Groups -/

namespace Accumulator

private theorem raises_numeric (v : Value) : Raises ExecError.Computing (numeric v) := by
  unfold numeric
  split
  · exact .ok _
  · exact .ok _
  · exact .error (.notNumeric _)

private theorem raises_plus (sum v : Value) : Raises ExecError.Computing (plus sum v) := by
  refine (raises_numeric v).bind fun x _ => ?_
  split
  · split
    · exact .ok _
    · exact .error (.overflow _)
  · exact .ok _

private theorem raises_add (a : Accumulator) (v : Value) : Raises ExecError.Computing (a.add v) := by
  unfold add
  simp only
  split
  · exact .ok _
  · split
    · exact (raises_numeric v).bind fun _ _ => .ok _
    · exact (raises_plus _ v).bind fun _ _ => .ok _
  · split
    · exact (raises_numeric v).bind fun _ _ => .ok _
    · exact (raises_plus _ v).bind fun _ _ => .ok _
  · exact .ok _
  · exact .ok _

theorem raises_feed (a : Accumulator) (input : Option Value) :
    Raises ExecError.Computing (a.feed input) := by
  unfold feed
  split
  · exact .ok _
  · split
    · exact .ok _
    · exact raises_add a _

end Accumulator

namespace Group

variable {groupBy : List Expr} {calls : List AggregateCall} {v : RowView}

private theorem raises_feedAll (hP : ∀ e, ExecError.Computing e → P e)
    (harguments : ∀ call ∈ calls, ∀ arg, call.arg = some arg → Raises P (v.eval arg))
    (as : List Accumulator) : Raises P (feedAll v as calls) := by
  induction as generalizing calls with
  | nil => exact .ok []
  | cons a as ih =>
    cases calls with
    | nil => exact .ok []
    | cons call calls =>
      rw [List.forall_mem_cons] at harguments
      have hinput : ∀ input : Option Value, Raises P (do
          let a ← a.feed input
          let as ← feedAll v as calls
          pure (a :: as)) := fun input =>
        ((a.raises_feed input).mono hP).bind fun _ _ => (ih harguments.2).bind fun _ _ => .ok _
      rw [feedAll]
      cases harg : call.arg with
      | none => exact hinput none
      | some arg => exact (harguments.1 arg harg).map.bind fun input _ => hinput input

private theorem length_feedAll {as as' : List Accumulator} (hlength : as.length = calls.length)
    (h : feedAll v as calls = .ok as') : as'.length = calls.length := by
  induction as generalizing calls as' with
  | nil =>
    cases h
    exact hlength
  | cons a as ih =>
    cases calls with
    | nil => cases hlength
    | cons call calls =>
      have hinput : ∀ input : Option Value, (do
          let a ← a.feed input
          let as ← feedAll v as calls
          pure (a :: as)) = .ok as' → as'.length = (call :: calls).length := by
        intro input h
        obtain ⟨a', _, h⟩ := bind_eq_ok.mp h
        obtain ⟨rest, hrest, h⟩ := bind_eq_ok.mp h
        cases h
        rw [List.length_cons, List.length_cons, ih (Nat.succ.inj hlength) hrest]
      rw [feedAll] at h
      cases harg : call.arg with
      | none =>
        rw [harg] at h
        exact hinput none h
      | some arg =>
        rw [harg] at h
        obtain ⟨input, _, h⟩ := bind_eq_ok.mp h
        exact hinput input h

private def Full (groupBy : List Expr) (calls : List AggregateCall) (g : Group) : Prop :=
  g.key.length = groupBy.length ∧ g.accumulators.length = calls.length

private theorem full_feed {g g' : Group} {step : Step} (hg : g.Full groupBy calls)
    (h : g.feed calls v step = .ok g') : g'.Full groupBy calls := by
  obtain ⟨as, has, h⟩ := bind_eq_ok.mp h
  cases h
  exact ⟨hg.1, length_feedAll hg.2 has⟩

private theorem full_create {key : List Value} (hkey : key.length = groupBy.length) :
    (create calls key).Full groupBy calls := ⟨hkey, List.length_map _⟩

private theorem full_feedGroups {groups groups' : Array Group} {step : Step}
    (hgroups : ∀ g ∈ groups, g.Full groupBy calls)
    (h : feedGroups groupBy calls groups v step = .ok groups') :
    ∀ g ∈ groups', g.Full groupBy calls := by
  obtain ⟨key, hkey, h⟩ := bind_eq_ok.mp h
  have hcreate : (create calls key).Full groupBy calls := full_create (length_of_mapM hkey)
  split at h
  · rename_i i hi
    obtain ⟨g', hg', h⟩ := bind_eq_ok.mp h
    cases h
    have hold : (groups[i]?.getD (create calls key)).Full groupBy calls := by
      cases hget : groups[i]? with
      | none => exact hcreate
      | some g => exact hgroups g (Array.mem_of_getElem? hget)
    intro g hg
    rcases Array.mem_or_eq_of_mem_setIfInBounds hg with hg | rfl
    · exact hgroups g hg
    · exact full_feed hold hg'
  · obtain ⟨g', hg', h⟩ := bind_eq_ok.mp h
    cases h
    intro g hg
    rcases Array.mem_push.mp hg with hg | rfl
    · exact hgroups g hg
    · exact full_feed hcreate hg'

theorem raises_feedGroups (hP : ∀ e, ExecError.Computing e → P e)
    (hkey : Raises P (v.evalAll groupBy))
    (harguments : ∀ call ∈ calls, ∀ arg, call.arg = some arg → Raises P (v.eval arg))
    (groups : Array Group) (step : Step) : Raises P (feedGroups groupBy calls groups v step) := by
  have hfeed : ∀ g : Group, Raises P (g.feed calls v step) := fun g =>
    (raises_feedAll hP harguments g.accumulators).bind fun _ _ => .ok _
  refine hkey.bind fun key _ => ?_
  split
  · exact (hfeed _).bind fun _ _ => .ok _
  · exact (hfeed _).bind fun _ _ => .ok _

private theorem supplies_outputs (hP : ∀ e, ExecError.Computing e → P e) {groups : Array Group}
    (hgroups : ∀ g ∈ groups, g.Full groupBy calls) :
    ∀ r ∈ (outputs groupBy calls groups).toList, (RowView.owned r.1).Supplies P
      fun name => ∃ cell ∈ cellNames groupBy calls, cell.answers name = true := by
  have hout : ∀ g : Group, g.Full groupBy calls →
      (RowView.owned (output (cellNames groupBy calls) g).1).Supplies P
        fun name => ∃ cell ∈ cellNames groupBy calls, cell.answers name = true := by
    intro g hg
    have hlength : (output (cellNames groupBy calls) g).1.names.take
        (output (cellNames groupBy calls) g).1.values.length = cellNames groupBy calls :=
      List.take_of_length_le (by simp [output, cellNames, hg.1, hg.2])
    have howned := RowView.supplies_owned hP (output (cellNames groupBy calls) g).1
    rw [hlength] at howned
    exact howned
  intro r hr
  simp only [outputs, Array.toList_map, List.mem_map] at hr
  obtain ⟨g, hg, rfl⟩ := hr
  split at hg
  · rename_i hempty
    cases List.mem_singleton.mp hg
    refine hout _ (full_create ?_)
    rw [Bool.and_eq_true, List.isEmpty_iff] at hempty
    rw [hempty.2]
    rfl
  · exact hout g (hgroups g (Array.mem_toList_iff.mp hg))

end Group

theorem KeyedRow.raises_sorted (keys : List SortKey) (rows : List KeyedRow) :
    Raises (· = .sortPanic) (sorted keys rows) := by
  unfold sorted
  split
  · exact .ok _
  · exact .error rfl

/-! ## Queries -/

namespace QueryTree

variable {R : Reader} {V W U : RowView → Prop} {N : CellName → Prop} {q left right : QueryTree}

/-- The rows of the query are such views, and neither opening nor reading it fails in other ways. -/
structure Yields (R : Reader) (V : RowView → Prop) (P : ExecError → Prop) (q : QueryTree) : Prop where
  opens : Raises P (q.stream R)
  rows : ∀ s, q.stream R = .ok s → s.Each V P

theorem Yields.weaken (h : q.Yields R V P) (hVW : ∀ v, V v → W v) : q.Yields R W P where
  opens := h.opens
  rows s hs := Stream.each_mono hVW (h.rows s hs)

private theorem yields_changed {q' : QueryTree} {g : Stream → Stream} (h : q.Yields R V P)
    (hq' : q'.stream R = (do
      let s ← q.stream R
      pure (g s)))
    (hg : ∀ s : Stream, s.Each V P → (g s).Each W P) : q'.Yields R W P := by
  constructor
  case opens =>
    rw [hq']
    exact h.opens.bind fun _ _ => .ok _
  case rows =>
    intro out hout
    rw [hq'] at hout
    obtain ⟨s, hs, hout⟩ := bind_eq_ok.mp hout
    cases hout
    exact hg s (h.rows s hs)

private theorem yields_buffered {q' : QueryTree} {σ : Type} {I : σ → Prop}
    {f : σ → RowView → Step → Except ExecError σ} {acc : σ}
    (out : σ → Except ExecError (Array (Row × Step))) (h : q.Yields R V P)
    (hq' : q'.stream R = (do
      let s ← q.stream R
      let acc ← s.fold f acc
      let rows ← out acc
      pure (Stream.replay rows.toList)))
    (hf : ∀ acc v step, I acc → V v →
      Raises P (f acc v step) ∧ ∀ acc', f acc v step = .ok acc' → I acc')
    (hacc : I acc)
    (hraises : ∀ s acc', q.stream R = .ok s → s.fold f acc = .ok acc' → Raises P (out acc'))
    (hout : ∀ acc, I acc → ∀ rows, out acc = .ok rows → ∀ r ∈ rows.toList, W (.owned r.1)) :
    q'.Yields R W P := by
  constructor
  case opens =>
    rw [hq']
    exact h.opens.bind fun s hs =>
      (Stream.each_fold hf (h.rows s hs) hacc).1.bind fun acc' hacc' =>
        (hraises s acc' hs hacc').bind fun _ _ => .ok _
  case rows =>
    intro t ht
    rw [hq'] at ht
    obtain ⟨s, hs, ht⟩ := bind_eq_ok.mp ht
    obtain ⟨acc', hacc', ht⟩ := bind_eq_ok.mp ht
    obtain ⟨rows, hrows, ht⟩ := bind_eq_ok.mp ht
    cases ht
    exact Stream.each_replay
      (hout acc' ((Stream.each_fold hf (h.rows s hs) hacc).2 acc' hacc') rows hrows)

theorem yields_scan {s : TableScan} (hview : ∀ v ∈ R.versions s.table, V (s.view v))
    (htest : ∀ v, V v → Raises P ((RowView.joined v .empty).holdsAll s.predicates)) :
    (scan s).Yields R V P where
  opens := .ok _
  rows out hout := by
    cases hout
    exact Stream.each_sift htest (Stream.each_ofVersions hview)

theorem yields_filter {condition : Expr} {policy : ConflictPolicy} (h : q.Yields R V P)
    (htest : ∀ v, V v → Raises P ((RowView.joined v .empty).holds condition)) :
    (filter condition policy q).Yields R V P :=
  yields_changed h rfl fun _ => Stream.each_sift htest

theorem yields_literal {items : List SelectItem} (h : ∀ row, V (.projected items (.owned row))) :
    (literal items).Yields R V P where
  opens := .ok _
  rows out hout := by
    cases hout
    have hrows : (Stream.replay StringList.singleEmptyRow.buffer.rows.toList).Each
        (fun v => ∃ row, v = .owned row) P := Stream.each_replay fun r _ => ⟨r.1, rfl⟩
    refine Stream.each_map ?_ hrows
    rintro v c ⟨row, rfl⟩
    exact h row

theorem yields_project {items : List SelectItem} (h : q.Yields R V P)
    (hitems : ∀ v, V v → W (.projected items v)) : (project items q).Yields R W P :=
  yields_changed h rfl fun _ => Stream.each_map fun v _ => hitems v

theorem yields_rename {qualifier : String} (h : q.Yields R V P)
    (hrename : ∀ v, V v → W (.qualified qualifier v)) : (rename qualifier q).Yields R W P :=
  yields_changed h rfl fun _ => Stream.each_map fun v _ => hrename v

theorem yields_join (hl : left.Yields R V P) (hr : right.Yields R W P)
    (hjoin : ∀ v w, V v → W w → U (.joined v w)) : (join left right).Yields R U P :=
  yields_changed hl rfl fun _ => Stream.each_joinWith hr.opens hr.rows hjoin

/-- The keys of the rows that come to a sort of the query are in an order. -/
def KeysInOrder (R : Reader) : QueryTree → Prop
  | scan _ => True
  | filter _ _ input => input.KeysInOrder R
  | literal _ => True
  | project _ input => input.KeysInOrder R
  | join left right => left.KeysInOrder R ∧ right.KeysInOrder R
  | aggregate _ _ input => input.KeysInOrder R
  | sort keys input => input.KeysInOrder R ∧ ∀ s keyed, input.stream R = .ok s →
      s.fold (Operator.collectKeyed keys {}) #[] = .ok keyed →
        StableSort.Orders (KeyedRow.before keys) keyed.toList
  | rename _ input => input.KeysInOrder R
  | cached input => input.KeysInOrder R

section

variable (hP : ∀ e, ExecError.Computing e → P e)
include hP

theorem yields_cached (h : q.Yields R (·.Supplies P N) P) :
    (cached q).Yields R (·.Supplies P N) P := by
  refine yields_buffered (I := fun rows : Array (Row × Step) => ∀ r ∈ rows.toList,
    (RowView.owned r.1).Supplies P N) (fun rows => .ok rows) h rfl
    (fun rows v step hrows hv => ?_) (by simp) (fun _ rows _ _ => .ok rows) fun rows hrows out hout => ?_
  case refine_2 =>
    cases hout
    exact hrows
  refine ⟨(hv.copy hP).bind fun _ _ => .ok _, fun rows' hrows' => ?_⟩
  obtain ⟨row, hrow, hrows'⟩ := bind_eq_ok.mp hrows'
  cases hrows'
  rw [Array.toList_push, List.forall_mem_append]
  exact ⟨hrows, by simpa using hv.owned hP hrow⟩

theorem yields_sort {keys : List SortKey} (h : q.Yields R (·.Supplies P N) P)
    (hkeys : ∀ key ∈ keys, key.expr.Within N)
    (hsorted : ∀ s keyed, q.stream R = .ok s → s.fold (Operator.collectKeyed keys {}) #[] = .ok keyed →
      Raises P (KeyedRow.sorted keys keyed.toList)) : (sort keys q).Yields R (·.Supplies P N) P := by
  refine yields_buffered (I := fun rows : Array KeyedRow => ∀ r ∈ rows.toList,
    (RowView.owned r.row).Supplies P N) (fun keyed => KeyedRow.sorted keys keyed.toList) h rfl
    (fun rows v step hrows hv => ?_) (by simp) hsorted fun rows hrows out hout r hr => ?_
  · have hvalues : Raises P (v.evalAll (keys.map (·.expr))) :=
      hv.evalAll hP (List.forall_mem_map.mpr hkeys)
    refine ⟨Raises.bind (hvalues.bind fun _ _ => (hv.copy hP).bind fun _ _ => .ok _) fun _ _ => .ok _,
      fun rows' hrows' => ?_⟩
    obtain ⟨k, hk, hrows'⟩ := bind_eq_ok.mp hrows'
    obtain ⟨values, _, hk⟩ := bind_eq_ok.mp hk
    obtain ⟨row, hrow, hk⟩ := bind_eq_ok.mp hk
    cases hk
    cases hrows'
    rw [Array.toList_push, List.forall_mem_append]
    exact ⟨hrows, by simpa using hv.owned hP hrow⟩
  · obtain ⟨k, hk, rfl⟩ := List.mem_map.mp ((KeyedRow.sorted_perm hout).mem_iff.mp hr)
    exact hrows k hk

theorem yields_aggregate {groupBy : List Expr} {calls : List AggregateCall}
    (h : q.Yields R (·.Supplies P N) P) (hgroupBy : ∀ e ∈ groupBy, e.Within N)
    (hcalls : ∀ call ∈ calls, ∀ arg, call.arg = some arg → arg.Within N) :
    (aggregate groupBy calls q).Yields R (·.Supplies P
      fun name => ∃ cell ∈ Group.cellNames groupBy calls, cell.answers name = true) P := by
  refine yields_buffered (I := fun groups : Array Group => ∀ g ∈ groups, g.Full groupBy calls)
    (fun groups => .ok (Group.outputs groupBy calls groups)) h rfl
    (fun groups v step hgroups hv => ?_) (by simp) (fun _ groups _ _ => .ok _) fun groups hgroups out hout => ?_
  case refine_2 =>
    cases hout
    exact Group.supplies_outputs hP hgroups
  exact ⟨Group.raises_feedGroups hP (hv.evalAll hP hgroupBy)
      (fun call hcall arg harg => hv.eval hP (hcalls call hcall arg harg)) groups step,
    fun groups' => Group.full_feedGroups hgroups⟩

/-- Where empty lookups are among the failures, no query fails in other ways, but for a sort whose keys are
in no order. -/
theorem yields_any (hmissing : ∀ name, P (.fieldNotFound name)) {q : QueryTree}
    (hsorts : P .sortPanic ∨ q.KeysInOrder R) : q.Yields R (·.Supplies P fun _ => True) P := by
  have hview : ∀ v : RowView, v.Supplies P fun _ => True := RowView.supplies_any hP hmissing
  induction q with
  | scan s =>
    exact yields_scan (fun v _ => hview _) fun v _ =>
      (hview _).holdsAll hP fun e _ => e.within_all
  | filter condition policy q ih =>
    exact yields_filter (ih hsorts) fun v _ => (hview _).holds hP condition.within_all
  | literal items => exact yields_literal fun row => hview _
  | project items q ih => exact yields_project (ih hsorts) fun v _ => hview _
  | join left right ihl ihr =>
    exact yields_join (ihl (hsorts.imp_right And.left)) (ihr (hsorts.imp_right And.right))
      fun v w _ _ => hview _
  | aggregate groupBy calls q ih =>
    exact (yields_aggregate hP (ih hsorts) (fun e _ => e.within_all)
      fun _ _ arg _ => arg.within_all).weaken fun v _ => hview v
  | sort keys q ih =>
    refine yields_sort hP (ih (hsorts.imp_right And.left)) (fun key _ => key.expr.within_all)
      fun s keyed hs hkeyed => ?_
    rcases hsorts with hpanic | ⟨_, horders⟩
    · exact (KeyedRow.raises_sorted keys keyed.toList).mono fun e he => he ▸ hpanic
    · rw [KeyedRow.sorted_eq_ok.mpr ⟨_, StableSort.sort_eq_insertionSort (horders s keyed hs hkeyed), rfl⟩]
      exact .ok _
  | rename qualifier q ih => exact yields_rename (ih hsorts) fun v _ => hview _
  | cached q ih => exact yields_cached hP (ih hsorts)

end

end QueryTree

end SnapshotSql
