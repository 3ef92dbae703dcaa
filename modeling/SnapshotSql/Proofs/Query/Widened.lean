import SnapshotSql.Proofs.Query.Caching
import SnapshotSql.Proofs.Query.Finished
import SnapshotSql.Proofs.Query.Lookups
import SnapshotSql.Proofs.Query.Noted
import SnapshotSql.Proofs.Query.Raising
/-! # Wider scans -/

namespace SnapshotSql

/-! ## Rows -/

namespace RowView

variable {N : CellName → Prop} {u v w l l' r r' : RowView}

def AgreeOn (N : CellName → Prop) (v w : RowView) : Prop := ∀ name, N name → v.find name = w.find name

theorem Alike.agreeOn (h : v.Alike w) : v.AgreeOn N w := fun name _ => congrFun h.find name

namespace AgreeOn

theorem refl (v : RowView) : v.AgreeOn N v := fun _ _ => rfl

theorem symm (h : v.AgreeOn N w) : w.AgreeOn N v := fun name hname => (h name hname).symm

theorem trans (h : u.AgreeOn N v) (h' : v.AgreeOn N w) : u.AgreeOn N w :=
  fun name hname => (h name hname).trans (h' name hname)

theorem joined (hl : l.AgreeOn N l') (hr : r.AgreeOn N r') : (joined l r).AgreeOn N (joined l' r') := by
  intro name hname
  rw [find, find, hl name hname, hr name hname]

theorem eval (h : v.AgreeOn N w) {e : Expr} (he : e.Within N) : v.eval e = w.eval e :=
  Expr.eval_congr (fun ref href => h _ (he.field ref href)) fun call hcall => h _ (he.call call hcall)

theorem holds (h : v.AgreeOn N w) {e : Expr} (he : e.Within N) : v.holds e = w.holds e := by
  have heval : e.eval v.find = e.eval w.find := h.eval he
  rw [RowView.holds, RowView.holds, Expr.holds, Expr.holds, heval]

theorem holdsAll (h : v.AgreeOn N w) {es : List Expr} (hes : ∀ e ∈ es, e.Within N) :
    v.holdsAll es = w.holdsAll es := by
  induction es with
  | nil => rfl
  | cons e es ih =>
    rw [RowView.holdsAll, RowView.holdsAll, h.holds (hes e List.mem_cons_self),
      ih fun e' he' => hes e' (List.mem_cons_of_mem e he')]

end AgreeOn

end RowView

/-- The second list of columns has those of the first one, and none of its others answers one of the
names. -/
structure TableSchema.Widens (schema : TableSchema) (N : CellName → Prop) (columns columns' : List Nat) :
    Prop where
  subset : columns ⊆ columns'
  first : ∀ i ∈ columns', schema.First i
  silent : ∀ i ∈ columns', i ∉ columns → ∀ col, schema.columns[i]? = some col → ∀ name, N name →
    (CellName.qualified schema.name col.name).answers name = false

theorem RowView.agreeOn_stored {schema : TableSchema} {N : CellName → Prop} {columns columns' : List Nat}
    {names names' : List CellName} {v : Version} (h : schema.Widens N columns columns')
    (hnames : Shows schema names columns) (hnames' : Shows schema names' columns')
    (hwidth : v.values.length = schema.width) :
    (stored names columns v).AgreeOn N (stored names' columns' v) := by
  intro name hname
  by_cases hanswers : ∃ i ∈ columns', ∃ col, schema.columns[i]? = some col ∧
      (CellName.qualified schema.name col.name).answers name = true
  · obtain ⟨i, hi, col, hcol, hanswers⟩ := hanswers
    have hmem : i ∈ columns := by
      by_contra hnot
      rw [h.silent i hi hnot col hcol name hname] at hanswers
      cases hanswers
    rw [find_answering hnames (fun j hj => h.first j (h.subset hj)) hmem hcol hanswers hwidth,
      find_answering hnames' h.first hi hcol hanswers hwidth]
  · have hsilent : ∀ i ∈ columns', ∀ col, schema.columns[i]? = some col →
        (CellName.qualified schema.name col.name).answers name = false := by
      intro i hi col hcol
      rw [Bool.eq_false_iff]
      exact fun htrue => hanswers ⟨i, hi, col, hcol, htrue⟩
    rw [find_silent hnames (fun i hi => hsilent i (h.subset hi)), find_silent hnames' hsilent]

/-! ## Queries -/

namespace QueryTree

variable {R : Reader} {N : CellName → Prop} {q q' l l' r r' : QueryTree} {s s' : TableScan}

/-- Either both queries fail, or both come to their ends, with rows that agree in pairs. -/
def Widens (R : Reader) (N : CellName → Prop) (q q' : QueryTree) : Prop :=
  Option.Rel (Paired (RowView.AgreeOn N)) (q.completed R) (q'.completed R)

theorem Widens.refl (q : QueryTree) : Widens R N q q := rel_self (Paired.refl .refl) _

private theorem passes_filter {condition : Expr} (hcondition : condition.Within N)
    (policy : ConflictPolicy) {v w : RowView} (c : Bool) (h : v.AgreeOn N w) :
    Stream.passes policy (fun v => (RowView.joined v .empty).holds condition) (v, c) =
      Stream.passes policy (fun v => (RowView.joined v .empty).holds condition) (w, c) := by
  rw [Stream.passes, Stream.passes, RowView.holds_joined_empty, RowView.holds_joined_empty,
    h.holds hcondition]

theorem widens_filter {condition : Expr} (hcondition : condition.Within N) (policy : ConflictPolicy)
    (h : Widens R N q q') : Widens R N (filter condition policy q) (filter condition policy q') := by
  rw [Widens, completed_filter, completed_filter]
  exact rel_bind h fun _ _ hrows => Paired.keepAll (passes_filter hcondition policy) hrows

theorem widens_join (hl : Widens R N l l') (hr : Widens R N r r') :
    Widens R N (join l r) (join l' r') := by
  rw [Widens, completed_join, completed_join]
  exact Paired.joined .joined hl hr

theorem widens_scan {columns : List Nat} {names : List CellName}
    (hviews : ∀ v ∈ R.versions s.table, (s.view v).AgreeOn N (.stored names columns v))
    (hpredicates : ∀ e ∈ s.predicates, e.Within N) :
    Widens R N (scan s) (scan { s with columns, names }) := by
  rw [Widens, completed_scan, completed_scan]
  refine Paired.keepAll ?_ ?_
  · intro v w c h
    rw [Stream.passes, Stream.passes, RowView.holdsAll_joined_empty, RowView.holdsAll_joined_empty,
      h.holdsAll hpredicates]
  · refine List.forall₂_map_left_iff.mpr (List.forall₂_map_right_iff.mpr (List.forall₂_same.mpr ?_))
    exact fun seen hseen => ⟨hviews seen.1 (Reader.mem_seen hseen).1, rfl⟩

theorem widens_cached (h : Widens R N (scan s) (scan s')) (hs : s.Readable R) (hs' : s'.Readable R) :
    Widens R N (scan s).cached (scan s').cached := by
  have hcopies := completed_cached_scan hs
  have hcopies' := completed_cached_scan hs'
  rw [Widens] at h ⊢
  generalize (scan s).completed R = x, (scan s').completed R = x', (scan s).cached.completed R = y,
    (scan s').cached.completed R = y' at h hcopies hcopies' ⊢
  cases h with
  | none =>
    cases hcopies
    cases hcopies'
    exact .none
  | some h =>
    cases hcopies with
    | some hcopies =>
      cases hcopies' with
      | some hcopies' =>
        have hback := Paired.symm (B := RowView.AgreeOn N) (fun h => h.agreeOn.symm) hcopies
        have hthere := Paired.trans (C := RowView.AgreeOn N) (fun h h' => h.trans h'.agreeOn) h hcopies'
        exact .some (Paired.trans (C := RowView.AgreeOn N) (fun h h' => h.trans h') hback hthere)

end QueryTree

/-! ## Plans -/

namespace Plan

variable {R : Reader} {c : Catalog} {policy : ConflictPolicy} {options : PlannerOptions}
  {N : CellName → Prop} {p p' l l' r r' : Plan}

/-- The query of the first plan is widened by that of the second one, which there is as well. -/
def Widens (R : Reader) (c : Catalog) (policy : ConflictPolicy) (N : CellName → Prop) (p p' : Plan) :
    Prop :=
  ∀ q, p.tree c policy = .ok q → ∃ q', p'.tree c policy = .ok q' ∧ q.Widens R N q'

theorem Widens.refl (p : Plan) : Widens R c policy N p p := fun q hq => ⟨q, hq, .refl q⟩

theorem widens_filtered {condition : Expr} (hcondition : condition.Within N)
    (h : Widens R c policy N p p') :
    Widens R c policy N (filtered c condition p) (filtered c condition p') := by
  intro t ht
  rw [filtered, build, tree] at ht
  obtain ⟨q, hq, ht⟩ := bind_eq_ok.mp ht
  obtain ⟨_, hcheck, ht⟩ := bind_eq_ok.mp ht
  cases ht
  obtain ⟨q', hq', hwidens⟩ := h q hq
  refine ⟨.filter condition policy q', ?_, QueryTree.widens_filter hcondition policy hwidens⟩
  rw [filtered, build, tree, hq', hcheck]
  rfl

theorem widens_residual {rest : List Expr} (hrest : ∀ e ∈ rest, e.Within N)
    (h : Widens R c policy N p p') :
    Widens R c policy N (residual c rest p) (residual c rest p') := by
  unfold residual
  cases hcondition : Expr.ofConjuncts? rest with
  | none => exact h
  | some condition => exact widens_filtered (Expr.within_ofConjuncts? hrest hcondition) h

private theorem widens_join (hl : Widens R c policy N l l') (hr : Widens R c policy N r r') :
    Widens R c policy N (build c .join [l, r]) (build c .join [l', r']) := by
  intro t ht
  rw [build, tree] at ht
  obtain ⟨ql, hql, ht⟩ := bind_eq_ok.mp ht
  obtain ⟨qr, hqr, ht⟩ := bind_eq_ok.mp ht
  cases ht
  obtain ⟨ql', hql', hl⟩ := hl ql hql
  obtain ⟨qr', hqr', hr⟩ := hr qr hqr
  exact ⟨.join ql' qr', by rw [build, tree, hql', hqr']; rfl, QueryTree.widens_join hl hr⟩

variable (policy) in
private theorem widens_leaf (hR : R.Formed c) {id : TableId} {columns columns' : List Nat}
    {predicates : List Expr} (h : (c.table id).schema.Widens N columns columns')
    (hpredicates : ∀ e ∈ predicates, e.Within N) :
    Widens R c policy N (leaf c (.tableGet id columns .read predicates))
        (leaf c (.tableGet id columns' .read predicates)) ∧
      Widens R c policy N (build c .cached [leaf c (.tableGet id columns .read predicates)])
        (build c .cached [leaf c (.tableGet id columns' .read predicates)]) := by
  have hscans : ∀ t, (leaf c (.tableGet id columns .read predicates)).tree c policy = .ok t →
      ∃ s s', t = .scan s ∧ (leaf c (.tableGet id columns' .read predicates)).tree c policy =
        .ok (.scan s') ∧ (QueryTree.scan s).Widens R N (.scan s') ∧ s.Readable R ∧ s'.Readable R := by
    intro t ht
    rw [leaf, build, tree] at ht
    obtain ⟨_, hcheck, ht⟩ := bind_eq_ok.mp ht
    obtain ⟨s, hs, ht⟩ := bind_eq_ok.mp ht
    cases ht
    obtain ⟨s', hs'⟩ := create_total (c := c)
      (fun i hi => TableSchema.lt_width_of_first (h.first i hi)) .read predicates policy
    have hread := TableScan.readable_of_fits hR (TableScan.fits_create hs)
    have hread' := TableScan.readable_of_fits hR (TableScan.fits_create hs')
    obtain ⟨names, rfl, _, hshows⟩ := create_eq_ok hs
    obtain ⟨names', hnames', _, hshows'⟩ := create_eq_ok hs'
    refine ⟨_, s', rfl, ?_, ?_, hread, hread'⟩
    · rw [leaf, build, tree, hcheck]
      simp only [bind, Except.bind, hs']
      rfl
    · rw [hnames']
      exact QueryTree.widens_scan (fun v hv => RowView.agreeOn_stored h hshows hshows' (hR id v hv))
        hpredicates
  refine ⟨fun t ht => ?_, fun t ht => ?_⟩
  · obtain ⟨s, s', rfl, hs', hwidens, _⟩ := hscans t ht
    exact ⟨.scan s', hs', hwidens⟩
  · rw [build, tree] at ht
    obtain ⟨q, hq, rfl⟩ := map_eq_ok.mp ht
    obtain ⟨s, s', rfl, hs', hwidens, hread, hread'⟩ := hscans q hq
    refine ⟨.cached (.scan s'), ?_, QueryTree.widens_cached hwidens hread hread'⟩
    rw [build, tree, hs']
    rfl

private theorem widens_attach {left left' : Option Plan} {isTable : Bool}
    (hleft : Option.Rel (Widens R c policy N) left left') (hp : Widens R c policy N p p')
    (hcached : isTable = true → Widens R c policy N (build c .cached [p]) (build c .cached [p'])) :
    Widens R c policy N (attach c options isTable left p) (attach c options isTable left' p') := by
  cases hleft with
  | none => exact hp
  | some hleft =>
    refine widens_join hleft ?_
    split
    · rename_i hbuffer
      exact hcached (Bool.and_eq_true_iff.mp hbuffer).2
    · exact hp

private theorem widens_applyOn {on : Option Expr} {q : Plan} (hon : ∀ e ∈ on, e.Within N)
    (h : Widens R c policy N p p') (hq : applyOn c on p = .ok q) :
    ∃ q', applyOn c on p' = .ok q' ∧ Widens R c policy N q q' := by
  cases on with
  | none =>
    cases hq
    exact ⟨p', rfl, h⟩
  | some on =>
    obtain ⟨_, hcheck, hq⟩ := bind_eq_ok.mp hq
    cases hq
    refine ⟨filtered c on p', ?_, widens_filtered (hon on rfl) h⟩
    rw [applyOn, hcheck]
    rfl

/-- The second parts have the conditions of the first ones and wider columns for each table. -/
def PartsWiden (c : Catalog) (N : CellName → Prop) (sources : List FromItem)
    (parts parts' : List (List Nat × List Expr)) : Prop :=
  ∀ (k : Nat) (item : FromItem), sources[k]? = some item → ∃ columns columns' predicates,
    parts[k]? = some (columns, predicates) ∧ parts'[k]? = some (columns', predicates) ∧
    (∀ e ∈ predicates, e.Within N) ∧
    ∀ id, item.source = .table id → (c.table id).schema.Widens N columns columns'

private theorem partsWiden_tail {item : FromItem} {sources : List FromItem}
    {parts parts' : List (List Nat × List Expr)} (h : PartsWiden c N (item :: sources) parts parts') :
    PartsWiden c N sources parts.tail parts'.tail := by
  intro k item' hk
  simp only [List.getElem?_tail]
  exact h (k + 1) item' hk

variable (policy) in
theorem widens_ofSources (hR : R.Formed c) (sources : List FromItem) {left left' out : Option Plan}
    {parts parts' : List (List Nat × List Expr)} (hleft : Option.Rel (Widens R c policy N) left left')
    (hparts : PartsWiden c N sources parts parts')
    (hons : ∀ item ∈ sources, ∀ on ∈ item.on, on.Within N)
    (h : ofSources c options left parts sources = .ok out) :
    ∃ out', ofSources c options left' parts' sources = .ok out' ∧
      Option.Rel (Widens R c policy N) out out' := by
  induction sources generalizing left left' parts parts' with
  | nil =>
    cases h
    exact ⟨left', rfl, hleft⟩
  | cons item sources ih =>
    obtain ⟨source, on⟩ := item
    have hon := hons ⟨source, on⟩ List.mem_cons_self
    have hons' := fun item hitem => hons item (List.mem_cons_of_mem _ hitem)
    cases source with
    | table id =>
      obtain ⟨columns, columns', predicates, hpart, hpart', hpredicates, hwidens⟩ := hparts 0 _ rfl
      rw [← List.head?_eq_getElem?] at hpart hpart'
      rw [ofSources] at h ⊢
      simp only [hpart, hpart', Option.getD_some] at h ⊢
      obtain ⟨plan, hplan, h⟩ := bind_eq_ok.mp h
      obtain ⟨hleaf, hcached⟩ := widens_leaf policy hR (hwidens id rfl) hpredicates
      obtain ⟨plan', hplan', hwidens'⟩ :=
        widens_applyOn hon (widens_attach hleft hleaf fun _ => hcached) hplan
      rw [hplan']
      exact ih (.some hwidens') (partsWiden_tail hparts) hons' h
    | query select qualifier =>
      rw [ofSources] at h ⊢
      obtain ⟨inner, hinner, h⟩ := bind_eq_ok.mp h
      obtain ⟨plan, hplan, h⟩ := bind_eq_ok.mp h
      obtain ⟨plan', hplan', hwidens'⟩ :=
        widens_applyOn hon (widens_attach hleft (.refl _) (nofun : false = true → _)) hplan
      rw [hinner]
      simp only [bind, Except.bind, hplan']
      exact ih (.some hwidens') (partsWiden_tail hparts) hons' h

end Plan

end SnapshotSql
