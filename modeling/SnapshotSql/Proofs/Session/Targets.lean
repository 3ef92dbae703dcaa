import SnapshotSql.Proofs.Query.Completed
import SnapshotSql.Proofs.Session.Drive
import SnapshotSql.Proofs.Session.Planned
/-! # Rows that statements change -/

namespace SnapshotSql

namespace Catalog

variable (c : Catalog) (table : TableId)

def fullRow (v : Version) : RowView :=
  .stored ((c.table table).schema.columns.map (c.table table).schema.cellName)
    (List.range (c.table table).schema.width) v

/-- Whether a version meets the condition of a statement. -/
def meets (filter : Option Expr) (v : Version) : Except ExecError Bool :=
  match filter with
  | none => .ok true
  | some condition => (c.fullRow table v).holds condition

/-- The versions of a table that are visible and meet a condition. -/
def matching (R : Reader) (access : Access) (filter : Option Expr) : List Version :=
  (R.versions table).filter fun v =>
    R.see access v = .visible ∧ (c.meets table filter v).toOption = some true

/-- The condition of a statement can be decided for every version that the statement comes across, and
no version that meets it is contested. -/
def Clear (R : Reader) (filter : Option Expr) : Prop :=
  ∀ v ∈ R.versions table, R.see .write v ≠ .invisible →
    ∃ met, c.meets table filter v = .ok met ∧ (met = true → R.see .write v = .visible)

/-- The id of a version and the values that an UPDATE replaces its values with. -/
def replacement (assignments : List (Nat × Expr)) (v : Version) :
    Except ExecError (RowId × List Value) :=
  (Operator.assign (c.fullRow table v) assignments v.values).map (v.rid, ·)

variable {c table}

theorem fullRow_values {v : Version} (h : v.values.length = (c.table table).schema.width) :
    (c.fullRow table v).values = .ok v.values := by
  have hcells : ∀ i ∈ List.range (c.table table).schema.width,
      (c.fullRow table v).cellAt i = .ok (v.values[i]?.getD .null) := by
    intro i hi
    have hlt : i < (c.table table).schema.width := List.mem_range.mp hi
    rw [fullRow, RowView.cellAt, List.getElem?_range hlt, Option.bind_some,
      List.getElem?_eq_getElem (h ▸ hlt)]
    rfl
  have hcount : (c.fullRow table v).cellCount = (c.table table).schema.width := List.length_range
  rw [RowView.values, hcount, mapM_congr hcells]
  refine (List.mapM_pure (m := Except ExecError)).trans (congrArg Except.ok ?_)
  apply List.ext_getElem?
  intro i
  rw [List.getElem?_map, ← h]
  by_cases hi : i < v.values.length
  · simp [List.getElem?_range hi, List.getElem?_eq_getElem hi]
  · simp [hi]

end Catalog

namespace Stream

def Uncontested : Stream → Prop
  | done => True
  | fail _ => True
  | row _ c rest => c = false ∧ rest.Uncontested
  | touch rest => rest.Uncontested

theorem uncontested_ofVersions {see : Version → Visibility} {view : Version → RowView}
    {vs : List Version} (h : ∀ v ∈ vs, see v ≠ .contested) : (ofVersions see view vs).Uncontested := by
  induction vs with
  | nil => trivial
  | cons v vs ih =>
    obtain ⟨hv, hvs⟩ := List.forall_mem_cons.mp h
    unfold ofVersions
    split
    · exact ih hvs
    · exact ⟨decide_eq_false hv, ih hvs⟩

theorem uncontested_sift {policy : ConflictPolicy} {test : RowView → Except ExecError Bool}
    {s : Stream} (h : s.Uncontested) : (s.sift policy test).Uncontested := by
  induction s with
  | done => trivial
  | fail e => trivial
  | row v c rest ih =>
    rw [sift_row]
    split
    · trivial
    · split
      · exact ⟨h.1, ih h.2⟩
      · exact ih h.2
  | touch rest ih => exact ih h

theorem genuine_fold_uncontested {σ : Type} {V : RowView → Prop} {f : σ → RowView → Step → Except ExecError σ}
    (hf : ∀ acc v, SnapshotSql.Genuine (f acc v .row)) {s : Stream} (hs : s.Each V (¬·.Foreign))
    (hrows : s.Uncontested) (acc : σ) : SnapshotSql.Genuine (s.fold f acc) := by
  induction s generalizing acc with
  | done => exact genuine_ok acc
  | fail e =>
    rintro e ⟨⟩
    exact hs
  | row v c rest ih =>
    obtain ⟨rfl, hrest⟩ := hrows
    rw [fold]
    split
    · rename_i e he
      rintro e' ⟨⟩
      exact hf acc v e he
    · exact ih hs.2 hrest _
  | touch rest ih => exact ih hs hrows acc

end Stream

namespace Operator

theorem genuine_changeTarget (table : TableId) (kind : OperatorKind) (db : Database) (v : RowView) :
    Genuine (changeTarget table kind db v .row) := by
  unfold changeTarget
  split
  · rintro e ⟨⟩ ⟨⟩
  · exact genuine_ok _

theorem genuine_assign (v : RowView) (assignments : List (Nat × Expr)) (values : List Value) :
    Genuine (assign v assignments values) := by
  induction assignments generalizing values with
  | nil => exact genuine_ok values
  | cons a rest ih =>
    refine genuine_bind (v.genuine_valueOf a.2) fun value => ?_
    split
    · exact ih _
    · rintro e ⟨⟩ ⟨⟩

theorem genuine_collectTarget (table : TableId) (kind : OperatorKind) (db : Database)
    (rids : Array RowId) (v : RowView) : Genuine (collectTarget table kind db rids v .row) :=
  genuine_bind (genuine_changeTarget table kind db v) fun _ => genuine_ok _

theorem genuine_collectChange (table : TableId) (assignments : List (Nat × Expr)) (kind : OperatorKind)
    (db : Database) (changes : Array (RowId × List Value)) (v : RowView) :
    Genuine (collectChange table assignments kind db changes v .row) :=
  genuine_bind (genuine_changeTarget table kind db v) fun _ =>
    genuine_bind v.genuine_values fun values =>
      genuine_bind (genuine_assign v assignments values) fun _ => genuine_ok _

end Operator

namespace QueryTree

variable {R : Reader} {c : Catalog} {policy : ConflictPolicy} {table : TableId}
  {filter : Option Expr}

theorem readsTouch_targets {σ : Type} (f : σ → RowView → Step → Except ExecError σ) (acc : σ) :
    (targets c policy table filter).readsTouch R f acc = true := by
  cases filter <;> rfl

/-- The versions of a table that a statement comes across and that its condition lets pass. -/
theorem completed_targets : (targets c policy table filter).completed R =
    (keepAll (fun r => (c.meets table filter r.1).toOption.map
      (· || TableScan.surfaces policy (.of r.2))) (R.seen .write table)).map
        (List.map fun r => (c.fullRow table r.1, r.2)) := by
  have hall : (scan (.ofTargets c policy table)).completed R =
      some ((R.seen .write table).map fun r => (c.fullRow table r.1, r.2)) := by
    rw [completed_scan]
    refine keepAll_eq_some.mpr ⟨fun _ _ => rfl, ?_⟩
    refine (List.filter_eq_self.mpr ?_).symm
    intro r _
    rfl
  cases filter with
  | none =>
    rw [targets, hall]
    have hkeep : keepAll (fun r => (c.meets table none r.1).toOption.map
        (· || TableScan.surfaces policy (.of r.2))) (R.seen .write table) =
          some (R.seen .write table) :=
      keepAll_eq_some.mpr ⟨fun _ _ => rfl, (List.filter_eq_self.mpr fun _ _ => rfl).symm⟩
    rw [hkeep]
    rfl
  | some condition =>
    rw [targets, completed_filter, hall, Option.bind_some, keepAll_map]
    simp only [Stream.passes, RowView.holds_joined_empty]
    rfl

private theorem map_kept (see : Version → Visibility) (pass : Version × Bool → Bool)
    (vs : List Version)
    (h : ∀ r ∈ (vs.filterMap fun v => (see v).shown v).filter pass, r.2 = false) :
    ((vs.filterMap fun v => (see v).shown v).filter pass).map (·.1) =
      vs.filter fun v => see v = .visible ∧ pass (v, false) = true := by
  induction vs with
  | nil => rfl
  | cons v vs ih =>
    cases hsee : see v with
    | invisible =>
      have hshown : (see v).shown v = none := by rw [hsee]; rfl
      simp only [List.filterMap_cons, hshown] at h ⊢
      rw [ih h, List.filter_cons_of_neg (by simp [hsee])]
    | visible =>
      have hshown : (see v).shown v = some (v, false) := by rw [hsee]; rfl
      simp only [List.filterMap_cons, hshown] at h ⊢
      by_cases hpass : pass (v, false) = true
      · rw [List.filter_cons_of_pos hpass] at h ⊢
        rw [List.map_cons, ih (List.forall_mem_cons.mp h).2,
          List.filter_cons_of_pos (by simp [hsee, hpass])]
      · rw [List.filter_cons_of_neg hpass] at h ⊢
        rw [ih h, List.filter_cons_of_neg (by simp [hpass])]
    | contested =>
      have hshown : (see v).shown v = some (v, true) := by rw [hsee]; rfl
      simp only [List.filterMap_cons, hshown] at h ⊢
      by_cases hpass : pass (v, true) = true
      · rw [List.filter_cons_of_pos hpass] at h
        cases (List.forall_mem_cons.mp h).1
      · rw [List.filter_cons_of_neg hpass] at h ⊢
        rw [ih h, List.filter_cons_of_neg (by simp [hsee])]

private theorem mapM_of_collected {β : Type} {f : Array β → RowView → Step → Except ExecError (Array β)}
    {g : Version → Except ExecError β} {rs : List (Version × Bool)} {acc xs : Array β}
    (hf : ∀ acc v, f acc (c.fullRow table v) .row = (g v).map acc.push)
    (hcontested : ∀ acc v xs, f acc (c.fullRow table v) .contested ≠ .ok xs)
    (h : (rs.map fun r => (c.fullRow table r.1, r.2)).foldlM
      (fun acc r => f acc r.1 (.of r.2)) acc = .ok xs) :
    (∀ r ∈ rs, r.2 = false) ∧
      ∃ ys, (rs.map (·.1)).mapM g = .ok ys ∧ xs.toList = acc.toList ++ ys := by
  induction rs generalizing acc with
  | nil =>
    cases h
    exact ⟨nofun, [], rfl, (List.append_nil _).symm⟩
  | cons r rs ih =>
    obtain ⟨v, contested⟩ := r
    rw [List.map_cons, List.foldlM_cons] at h
    obtain ⟨acc', hv, h⟩ := bind_eq_ok.mp h
    cases contested with
    | true => exact absurd hv (hcontested acc v acc')
    | false =>
      obtain ⟨y, hy, rfl⟩ := map_eq_ok.mp ((hf acc v).symm.trans hv)
      obtain ⟨hall, ys, hys, hxs⟩ := ih h
      refine ⟨List.forall_mem_cons.mpr ⟨rfl, hall⟩, y :: ys, ?_, ?_⟩
      · rw [List.map_cons, List.mapM_cons, hy, hys]
        rfl
      · rw [hxs, Array.toList_push, List.append_assoc, List.singleton_append]

/-- The versions that a statement comes across and that its condition lets pass. -/
private def passed (c : Catalog) (policy : ConflictPolicy) (table : TableId) (filter : Option Expr)
    (R : Reader) : List (Version × Bool) :=
  (R.seen .write table).filter fun r => (c.meets table filter r.1).toOption.map
    (· || TableScan.surfaces policy (.of r.2)) = some true

private theorem map_passed (h : ∀ r ∈ passed c policy table filter R, r.2 = false) :
    (passed c policy table filter R).map (·.1) = c.matching table R .write filter := by
  have hkept := map_kept (R.see .write) (fun r => decide ((c.meets table filter r.1).toOption.map
    (· || TableScan.surfaces policy (.of r.2)) = some true)) (R.versions table) h
  have hpass : ∀ v, (c.meets table filter v).toOption.map
      (· || TableScan.surfaces policy (.of false)) = (c.meets table filter v).toOption := by
    intro v
    cases c.meets table filter v <;> simp [Except.toOption, TableScan.surfaces, Step.of]
  simp only [hpass, decide_eq_true_eq] at hkept
  exact hkept

/-- Collecting from the versions that a statement changes: none of them is contested, and the others
that the statement comes across do not meet its condition. -/
theorem readAll_targets {β : Type} {f : Array β → RowView → Step → Except ExecError (Array β)}
    {g : Version → Except ExecError β} {xs : Array β}
    (hf : ∀ acc v, f acc (c.fullRow table v) .row = (g v).map acc.push)
    (hcontested : ∀ acc v xs, f acc (c.fullRow table v) .contested ≠ .ok xs)
    (h : (targets c policy table filter).readAll R f #[] = .ok xs) :
    c.Clear table R filter ∧
    (c.matching table R .write filter).mapM g = .ok xs.toList := by
  have hread := toOption_readAll (targets c policy table filter) f #[] R
  rw [h, completed_targets] at hread
  obtain ⟨rs, hrs, hfold⟩ := Option.bind_eq_some_iff.mp hread.symm
  obtain ⟨kept, hkept, rfl⟩ := Option.map_eq_some_iff.mp hrs
  obtain ⟨htests, rfl⟩ := keepAll_eq_some.mp hkept
  obtain ⟨hclear, ys, hys, hxs⟩ := mapM_of_collected hf hcontested (toOption_eq_some.mp hfold)
  refine ⟨?_, ?_⟩
  · intro v hv hsee
    obtain ⟨shown, hshown⟩ : ∃ contested, (R.see .write v).shown v = some (v, contested) := by
      cases h : R.see .write v with
      | invisible => exact absurd h hsee
      | visible => exact ⟨false, rfl⟩
      | contested => exact ⟨true, rfl⟩
    have hmem : (v, shown) ∈ R.seen .write table := List.mem_filterMap.mpr ⟨v, hv, hshown⟩
    have htest := htests _ hmem
    cases hmet : c.meets table filter v with
    | error e => simp [hmet, Except.toOption] at htest
    | ok met =>
      refine ⟨met, rfl, ?_⟩
      rintro rfl
      have hfalse := hclear (v, shown) (List.mem_filter.mpr ⟨hmem, by simp [hmet, Except.toOption]⟩)
      obtain rfl : shown = false := hfalse
      exact (Reader.mem_seen hmem).2
  · have hpassed : (passed c policy table filter R).map (·.1) = c.matching table R .write filter :=
      map_passed hclear
    rw [← hpassed, hxs]
    exact hys

/-! ## When no version is contested -/

/-- Collecting succeeds if the condition can be decided and every row that meets it can be taken in. -/
theorem readAll_uncontested {β : Type} {f : Array β → RowView → Step → Except ExecError (Array β)}
    {g : Version → Except ExecError β} {ys : List β}
    (hf : ∀ acc v, f acc (c.fullRow table v) .row = (g v).map acc.push)
    (hR : ∀ v ∈ R.versions table, R.see .write v ≠ .contested) (hclear : c.Clear table R filter)
    (hys : (c.matching table R .write filter).mapM g = .ok ys) :
    (targets c policy table filter).readAll R f #[] = .ok ys.toArray := by
  have hseen : ∀ r ∈ R.seen .write table, r.2 = false := by
    intro r hr
    obtain ⟨hmem, hsee⟩ := Reader.mem_seen hr
    by_contra hcontested
    rw [if_pos (by simpa using hcontested)] at hsee
    exact hR r.1 hmem hsee
  have hkept : keepAll (fun r => (c.meets table filter r.1).toOption.map
      (· || TableScan.surfaces policy (.of r.2))) (R.seen .write table) =
        some (passed c policy table filter R) := by
    refine keepAll_eq_some.mpr ⟨fun r hr => ?_, rfl⟩
    obtain ⟨hmem, hsee⟩ := Reader.mem_seen hr
    rw [hseen r hr] at hsee
    obtain ⟨met, hmet, _⟩ := hclear r.1 hmem (by rw [hsee]; exact nofun)
    rw [hmet]
    rfl
  have hpassed : ∀ r ∈ passed c policy table filter R, r.2 = false :=
    fun r hr => hseen r (List.mem_filter.mp hr).1
  rw [← map_passed hpassed] at hys
  rw [← toOption_eq_some, toOption_readAll, completed_targets, hkept, Option.map_some, Option.bind_some,
    toOption_eq_some, List.foldlM_map]
  have hfold := foldlM_push hys #[]
  rw [List.foldlM_map] at hfold
  refine Eq.trans ?_ (hfold.trans (by simp))
  refine foldlM_congr (fun r hr acc => ?_) #[]
  rw [hpassed r hr]
  exact hf acc r.1

theorem genuine_readAll_targets {σ : Type} {f : σ → RowView → Step → Except ExecError σ}
    (hf : ∀ acc v, Genuine (f acc v .row)) (hR : ∀ v ∈ R.versions table, R.see .write v ≠ .contested)
    (acc : σ) : Genuine ((targets c policy table filter).readAll R f acc) := by
  have hscan : (Stream.ofScan R (.ofTargets c policy table)).Uncontested :=
    Stream.uncontested_sift (Stream.uncontested_ofVersions hR)
  have hread : ∃ s, (targets c policy table filter).stream R = .ok s ∧ s.Uncontested := by
    cases filter with
    | none => exact ⟨_, rfl, hscan⟩
    | some condition => exact ⟨_, rfl, Stream.uncontested_sift hscan⟩
  obtain ⟨s, hs, huncontested⟩ := hread
  have hgenuine := (yields_genuine R (targets c policy table filter)).rows s hs
  rw [readAll, hs]
  exact Stream.genuine_fold_uncontested hf hgenuine huncontested acc

theorem readAll_collectTarget {kind : OperatorKind} {db : Database} {rids : Array RowId}
    (h : (targets c policy table filter).readAll R (Operator.collectTarget table kind db) #[] =
      .ok rids) :
    c.Clear table R filter ∧
    rids.toList = (c.matching table R .write filter).map (·.rid) := by
  have hcontested : ∀ acc v xs,
      Operator.collectTarget table kind db acc (c.fullRow table v) .contested ≠ .ok xs := by
    intro acc v xs hxs
    cases hxs
  obtain ⟨hclear, hrids⟩ := readAll_targets (g := fun v => .ok v.rid) (fun _ _ => rfl) hcontested h
  refine ⟨hclear, ?_⟩
  have hmap : (c.matching table R .write filter).mapM (fun v => (.ok v.rid : Except ExecError RowId)) =
      .ok ((c.matching table R .write filter).map (·.rid)) := List.mapM_pure (m := Except ExecError)
  exact (Except.ok.inj (hmap.symm.trans hrids)).symm

private def newVersion (c : Catalog) (table : TableId) (assignments : List (Nat × Expr)) (v : Version) :
    Except ExecError (RowId × List Value) := do
  let values ← (c.fullRow table v).values
  let values ← Operator.assign (c.fullRow table v) assignments values
  pure (v.rid, values)

private theorem collectChange_row {kind : OperatorKind} {db : Database}
    {assignments : List (Nat × Expr)} (acc : Array (RowId × List Value)) (v : Version) :
    Operator.collectChange table assignments kind db acc (c.fullRow table v) .row =
      (newVersion c table assignments v).map acc.push := by
  show (do
    let values ← (c.fullRow table v).values
    let values ← Operator.assign (c.fullRow table v) assignments values
    pure (acc.push (v.rid, values)) : Except ExecError _) = _
  rw [newVersion]
  cases (c.fullRow table v).values with
  | error e => rfl
  | ok values =>
    simp only [bind, Except.bind]
    cases Operator.assign (c.fullRow table v) assignments values <;> rfl

private theorem mapM_newVersion {assignments : List (Nat × Expr)}
    (hwidth : ∀ v ∈ R.versions table, v.values.length = (c.table table).schema.width) :
    (c.matching table R .write filter).mapM (newVersion c table assignments) =
      (c.matching table R .write filter).mapM (c.replacement table assignments) := by
  refine mapM_congr fun v hv => ?_
  rw [newVersion, Catalog.fullRow_values (hwidth v (List.mem_filter.mp hv).1)]
  rfl

theorem readAll_collectChange {kind : OperatorKind} {db : Database} {assignments : List (Nat × Expr)}
    {changes : Array (RowId × List Value)}
    (hwidth : ∀ v ∈ R.versions table, v.values.length = (c.table table).schema.width)
    (h : (targets c policy table filter).readAll R
      (Operator.collectChange table assignments kind db) #[] = .ok changes) :
    c.Clear table R filter ∧
    (c.matching table R .write filter).mapM (c.replacement table assignments) =
      .ok changes.toList := by
  have hcontested : ∀ acc v xs, Operator.collectChange table assignments kind db acc
      (c.fullRow table v) .contested ≠ .ok xs := by
    intro acc v xs hxs
    cases hxs
  obtain ⟨hclear, hchanges⟩ := readAll_targets collectChange_row hcontested h
  exact ⟨hclear, (mapM_newVersion hwidth).symm.trans hchanges⟩

/-! ## What cannot be collected -/

/-- If a DELETE cannot collect its rows, its condition cannot be decided for some row. -/
theorem readAll_collectTarget_error {kind : OperatorKind} {db : Database} {e : ExecError}
    (hR : ∀ v ∈ R.versions table, R.see .write v ≠ .contested)
    (h : (targets c policy table filter).readAll R (Operator.collectTarget table kind db) #[] =
      .error e) : ¬c.Clear table R filter ∧ ¬e.Foreign := by
  refine ⟨fun hclear => ?_, genuine_readAll_targets (fun acc v =>
    Operator.genuine_collectTarget table kind db acc v) hR #[] e h⟩
  have hrids : (c.matching table R .write filter).mapM
      (fun v => (.ok v.rid : Except ExecError RowId)) =
        .ok ((c.matching table R .write filter).map (·.rid)) := List.mapM_pure (m := Except ExecError)
  rw [readAll_uncontested (fun _ _ => rfl) hR hclear hrids] at h
  cases h

/-- If an UPDATE cannot collect its rows, its condition cannot be decided for some row, or new values
cannot be computed. -/
theorem readAll_collectChange_error {kind : OperatorKind} {db : Database}
    {assignments : List (Nat × Expr)} {e : ExecError}
    (hwidth : ∀ v ∈ R.versions table, v.values.length = (c.table table).schema.width)
    (hR : ∀ v ∈ R.versions table, R.see .write v ≠ .contested)
    (h : (targets c policy table filter).readAll R
      (Operator.collectChange table assignments kind db) #[] = .error e) :
    (c.Clear table R filter → ∃ e', (c.matching table R .write filter).mapM
      (c.replacement table assignments) = .error e') ∧ ¬e.Foreign := by
  refine ⟨fun hclear => ?_, genuine_readAll_targets (fun acc v =>
    Operator.genuine_collectChange table assignments kind db acc v) hR #[] e h⟩
  cases hchanges : (c.matching table R .write filter).mapM (c.replacement table assignments) with
  | error e' => exact ⟨e', rfl⟩
  | ok changes =>
    rw [← mapM_newVersion hwidth] at hchanges
    rw [readAll_uncontested collectChange_row hR hclear hchanges] at h
    cases h

end QueryTree

end SnapshotSql
