import SnapshotSql.Proofs.Query.Conjuncts
import SnapshotSql.Proofs.Query.Finished
import SnapshotSql.Proofs.Query.Meaning
/-! # Conditions tested early -/

namespace SnapshotSql

namespace RowView

def CellsOf (names : List String) (v : RowView) : Prop :=
  ∀ table field, table ∉ names → v.find (.qualified table field) = .ok none

def meetsAll (es : List Expr) (v : RowView) : Bool :=
  es.all fun e => (v.holds e).toOption = some true

def Decides (es : List Expr) (v : RowView) : Prop :=
  v.meetsAll es = true ∨ ∃ e ∈ es, v.holds e = .ok false

variable {es es' : List Expr} {v w l r : RowView} {names names' : List String}

theorem meetsAll_eq_true : v.meetsAll es = true ↔ ∀ e ∈ es, v.holds e = .ok true := by
  simp [meetsAll, toOption_eq_some]

theorem meetsAll_append (es es' : List Expr) (v : RowView) :
    v.meetsAll (es ++ es') = (v.meetsAll es && v.meetsAll es') := List.all_append

theorem not_meetsAll_of_false {e : Expr} (he : e ∈ es) (h : v.holds e = .ok false) :
    v.meetsAll es = false := by
  rw [Bool.eq_false_iff, ne_eq, meetsAll_eq_true]
  intro hall
  rw [hall e he] at h
  cases h

theorem decides_holdsAll {b : Bool} (h : v.holdsAll es = .ok b) :
    v.Decides es ∧ v.meetsAll es = b := by
  induction es with
  | nil =>
    cases h
    exact ⟨.inl rfl, rfl⟩
  | cons e es ih =>
    rw [holdsAll] at h
    obtain ⟨held, he, h⟩ := bind_eq_ok.mp h
    have hcons : v.meetsAll (e :: es) = (decide (held = true) && v.meetsAll es) := by
      simp [meetsAll, he, Except.toOption]
    cases held with
    | false =>
      cases h
      exact ⟨.inr ⟨e, List.mem_cons_self, he⟩, hcons⟩
    | true =>
      obtain ⟨hdecides, hmeets⟩ := ih h
      rw [hcons, hmeets]
      refine ⟨?_, rfl⟩
      rcases hdecides with hall | ⟨e', he', hfalse⟩
      · exact .inl (by rw [hcons, hall]; rfl)
      · exact .inr ⟨e', List.mem_cons_of_mem e he', hfalse⟩

theorem Decides.mono (h : v.Decides es) (haggregate : ∀ e ∈ es, e.hasAggregate = false)
    (hfind : ∀ e ∈ es, e.Extends v.find w.find) :
    w.Decides es ∧ w.meetsAll es = v.meetsAll es := by
  rcases h with hall | ⟨e, he, hfalse⟩
  · have hw : w.meetsAll es = true := meetsAll_eq_true.mpr fun e he =>
      Expr.holds_mono (haggregate e he) (hfind e he) (meetsAll_eq_true.mp hall e he)
    exact ⟨.inl hw, hw.trans hall.symm⟩
  · have hw := Expr.holds_mono (haggregate e he) (hfind e he) hfalse
    exact ⟨.inr ⟨e, he, hw⟩, by rw [not_meetsAll_of_false he hw, not_meetsAll_of_false he hfalse]⟩

theorem Decides.append (h : v.Decides es) (h' : v.meetsAll es = true → v.Decides es') :
    v.Decides (es ++ es') := by
  rcases h with hall | ⟨e, he, hfalse⟩
  · rcases h' hall with hall' | ⟨e, he, hfalse⟩
    · exact .inl (by rw [meetsAll_append, hall, hall']; rfl)
    · exact .inr ⟨e, List.mem_append_right _ he, hfalse⟩
  · exact .inr ⟨e, List.mem_append_left _ he, hfalse⟩

theorem find_joined_left {name : CellName} {x : Value} (h : l.find name = .ok (some x)) :
    (joined l r).find name = .ok (some x) := by
  rw [find, h]
  rfl

theorem find_joined_right {name : CellName} (h : l.find name = .ok none) :
    (joined l r).find name = r.find name := by
  rw [find, h]
  rfl

theorem CellsOf.joined (hl : l.CellsOf names) (hr : r.CellsOf names') :
    (joined l r).CellsOf (names ++ names') := by
  intro table field htable
  rw [List.mem_append, not_or] at htable
  rw [find_joined_right (hl table field htable.1), hr table field htable.2]

theorem Decides.joined_left (h : l.Decides es) (haggregate : ∀ e ∈ es, e.hasAggregate = false) :
    (joined l r).Decides es ∧ (joined l r).meetsAll es = l.meetsAll es :=
  h.mono haggregate fun _ _ _ _ _ hx => find_joined_left hx

/-- Conditions of the right side keep their truth if they read no cell of the left one. -/
theorem Decides.joined_right (h : r.Decides es) (haggregate : ∀ e ∈ es, e.hasAggregate = false)
    (hleft : l.CellsOf names) (hright : r.CellsOf names')
    (hfree : ∀ e ∈ es, ∀ ref ∈ e.fields, ref.table ∉ names ∨ ref.table ∉ names') :
    (joined l r).Decides es ∧ (joined l r).meetsAll es = r.meetsAll es := by
  refine h.mono haggregate fun e he ref href x hx => ?_
  have hne : ref.table ∉ names := by
    refine (hfree e he ref (Expr.plainFields_subset e href)).resolve_right fun hnot => ?_
    rw [hright _ _ hnot] at hx
    cases hx
  rw [find_joined_right (hleft _ _ hne), hx]

end RowView

namespace QueryTree

/-- Of the rows of `q`, the query `p` yields those that meet the conditions `es`, if it comes to its
end. The rows of `q` have no cells but of the sources in `names`. -/
structure Narrows (R : Reader) (es : List Expr) (names : List String) (p q : QueryTree) : Prop where
  named : ∀ qs, q.completed R = some qs → ∀ r ∈ qs, r.2 = false ∧ r.1.CellsOf names
  kept : ∀ ps qs, p.completed R = some ps → q.completed R = some qs →
    ps = qs.filter (fun r => r.1.meetsAll es) ∧ ∀ r ∈ qs, r.1.Decides es

variable {R : Reader} {es es' : List Expr} {names names' : List String} {p q p' q' : QueryTree}

theorem narrows_same (hsame : ∀ ps qs, p.completed R = some ps → q.completed R = some qs → ps = qs)
    (hnamed : ∀ qs, q.completed R = some qs → ∀ r ∈ qs, r.2 = false ∧ r.1.CellsOf names) :
    Narrows R [] names p q where
  named := hnamed
  kept ps qs hps hqs := by
    rw [hsame ps qs hps hqs]
    exact ⟨(List.filter_eq_self.mpr fun _ _ => rfl).symm, fun _ _ => .inl rfl⟩

theorem narrows_filter (condition : Expr) (policy : ConflictPolicy) (h : Narrows R es names p q) :
    Narrows R es names (.filter condition policy p) (.filter condition policy q) := by
  constructor
  · intro qs' hqs' r hr
    rw [completed_filter] at hqs'
    obtain ⟨qs, hqs, hqs'⟩ := Option.bind_eq_some_iff.mp hqs'
    obtain ⟨_, rfl⟩ := keepAll_eq_some.mp hqs'
    exact h.named qs hqs r (List.mem_filter.mp hr).1
  · intro ps' qs' hps' hqs'
    rw [completed_filter] at hps' hqs'
    obtain ⟨ps, hps, hps'⟩ := Option.bind_eq_some_iff.mp hps'
    obtain ⟨qs, hqs, hqs'⟩ := Option.bind_eq_some_iff.mp hqs'
    obtain ⟨_, rfl⟩ := keepAll_eq_some.mp hps'
    obtain ⟨_, rfl⟩ := keepAll_eq_some.mp hqs'
    obtain ⟨rfl, hdecides⟩ := h.kept ps qs hps hqs
    refine ⟨?_, fun r hr => hdecides r (List.mem_filter.mp hr).1⟩
    rw [List.filter_filter, List.filter_filter]
    exact List.filter_congr fun r _ => Bool.and_comm _ _

private theorem pairUp_filter {ls rs : List (RowView × Bool)} {f g h : RowView × Bool → Bool}
    (hf : ∀ l ∈ ls, ∀ r ∈ rs, f (.joined l.1 r.1, l.2 || r.2) = (g l && h r)) :
    (pairUp ls rs).filter f = pairUp (ls.filter g) (rs.filter h) := by
  induction ls with
  | nil => rfl
  | cons l ls ih =>
    rw [List.forall_mem_cons] at hf
    have hhead : (rs.map fun r => (RowView.joined l.1 r.1, l.2 || r.2)).filter f =
        if g l then (rs.filter h).map fun r => (RowView.joined l.1 r.1, l.2 || r.2) else [] := by
      rw [List.filter_map]
      have hcomp : rs.filter (f ∘ fun r => (RowView.joined l.1 r.1, l.2 || r.2)) =
          rs.filter fun r => g l && h r := List.filter_congr hf.1
      rw [hcomp]
      cases g l <;> simp
    have hcons : ∀ l ls, pairUp (l :: ls) rs =
        (rs.map fun r => (RowView.joined l.1 r.1, l.2 || r.2)) ++ pairUp ls rs := fun _ _ => rfl
    rw [hcons, List.filter_append, hhead, ih hf.2, List.filter_cons]
    cases g l <;> rfl

theorem narrows_join (hleft : Narrows R es names p q) (hright : Narrows R es' names' p' q')
    (haggregate : ∀ e ∈ es ++ es', e.hasAggregate = false)
    (hfree : ∀ e ∈ es', ∀ ref ∈ e.fields, ref.table ∉ names ∨ ref.table ∉ names') :
    Narrows R (es ++ es') (names ++ names') (.join p p') (.join q q') := by
  rw [List.forall_mem_append] at haggregate
  constructor
  · intro out hout o ho
    obtain ⟨ls, hls, hcases⟩ := completed_join_eq_some.mp hout
    rcases hcases with ⟨_, rfl⟩ | ⟨_, rs, hrs, rfl⟩
    · cases ho
    · obtain ⟨l, hl, ho⟩ := List.mem_flatMap.mp ho
      obtain ⟨r, hr, rfl⟩ := List.mem_map.mp ho
      obtain ⟨hl2, hlcells⟩ := hleft.named ls hls l hl
      obtain ⟨hr2, hrcells⟩ := hright.named rs hrs r hr
      exact ⟨by rw [hl2, hr2]; rfl, hlcells.joined hrcells⟩
  · intro pout qout hpout hqout
    obtain ⟨ps, hps, hpcases⟩ := completed_join_eq_some.mp hpout
    obtain ⟨ls, hls, hqcases⟩ := completed_join_eq_some.mp hqout
    obtain ⟨rfl, hldecides⟩ := hleft.kept ps ls hps hls
    rcases hqcases with ⟨rfl, rfl⟩ | ⟨_, rs, hrs, rfl⟩
    · rcases hpcases with ⟨_, rfl⟩ | ⟨hne, _⟩
      · exact ⟨rfl, nofun⟩
      · exact absurd rfl hne
    · -- The right side of `p` may fail, but only if no row of the left side is kept.
      have hrkept : ∀ l ∈ ls, l.1.meetsAll es = true → ∃ kept, p'.completed R = some kept := by
        intro l hl hmet
        rcases hpcases with ⟨hnil, _⟩ | ⟨_, kept, hkept, _⟩
        · exact absurd hnil (List.ne_nil_of_mem (List.mem_filter.mpr ⟨hl, hmet⟩))
        · exact ⟨kept, hkept⟩
      have hpair : ∀ l ∈ ls, ∀ r ∈ rs, (RowView.joined l.1 r.1).Decides (es ++ es') ∧
          (RowView.joined l.1 r.1).meetsAll (es ++ es') =
            (l.1.meetsAll es && r.1.meetsAll es') := by
        intro l hl r hr
        obtain ⟨hdecides, hmeets⟩ := (hldecides l hl).joined_left (r := r.1) haggregate.1
        have hright' : l.1.meetsAll es = true → (RowView.joined l.1 r.1).Decides es' ∧
            (RowView.joined l.1 r.1).meetsAll es' = r.1.meetsAll es' := by
          intro hmet
          obtain ⟨kept, hkept⟩ := hrkept l hl hmet
          exact ((hright.kept kept rs hkept hrs).2 r hr).joined_right haggregate.2
            (hleft.named ls hls l hl).2 (hright.named rs hrs r hr).2 hfree
        refine ⟨hdecides.append fun hmet => (hright' (hmeets ▸ hmet)).1, ?_⟩
        rw [RowView.meetsAll_append, hmeets]
        cases hmet : l.1.meetsAll es with
        | false => rfl
        | true => rw [(hright' hmet).2]
      refine ⟨?_, ?_⟩
      · rw [pairUp_filter fun l hl r hr => (hpair l hl r hr).2]
        rcases hpcases with ⟨hnil, rfl⟩ | ⟨_, kept, hkept, rfl⟩
        · rw [hnil]
          rfl
        · rw [(hright.kept kept rs hkept hrs).1]
      · intro o ho
        obtain ⟨l, hl, ho⟩ := List.mem_flatMap.mp ho
        obtain ⟨r, hr, rfl⟩ := List.mem_map.mp ho
        exact (hpair l hl r hr).1

theorem narrows_scan (hR : ∀ v, R.see .read v ≠ .contested) {s : TableScan}
    (haccess : s.access = .read) (hpredicates : s.predicates = [])
    (hcells : ∀ v, (s.view v).CellsOf names) :
    Narrows R es names (.scan { s with predicates := es }) (.scan s) := by
  have hall : (scan s).completed R = some ((R.seen .read s.table).map fun r => (s.view r.1, r.2)) := by
    rw [completed_scan, hpredicates, haccess]
    refine keepAll_eq_some.mpr ⟨fun _ _ => rfl, (List.filter_eq_self.mpr ?_).symm⟩
    intro r _
    rfl
  have hread : ∀ r ∈ (R.seen .read s.table).map fun r => (s.view r.1, r.2),
      r.2 = false ∧ r.1.CellsOf names := by
    intro r hr
    obtain ⟨seen, hseen, rfl⟩ := List.mem_map.mp hr
    exact ⟨(Reader.mem_seen_read hR hseen).2.2, hcells seen.1⟩
  constructor
  · intro qs hqs
    rw [hall] at hqs
    cases hqs
    exact hread
  · intro ps qs hps hqs
    rw [hall] at hqs
    cases hqs
    have hscan : (scan { s with predicates := es }).completed R =
        keepAll (Stream.passes s.policy fun v => (RowView.joined v .empty).holdsAll es)
          ((R.seen .read s.table).map fun r => (s.view r.1, r.2)) := by
      rw [completed_scan, ← haccess]
      rfl
    rw [hscan] at hps
    obtain ⟨htests, rfl⟩ := keepAll_eq_some.mp hps
    have htest : ∀ r ∈ (R.seen .read s.table).map fun r => (s.view r.1, r.2),
        r.1.Decides es ∧ (Stream.passes s.policy (fun v => (RowView.joined v .empty).holdsAll es) r =
          some true ↔ r.1.meetsAll es = true) := by
      intro r hr
      have hsome := htests r hr
      simp only [Stream.passes, RowView.holdsAll_joined_empty, (hread r hr).1] at hsome ⊢
      cases hholds : r.1.holdsAll es with
      | error e =>
        rw [hholds] at hsome
        cases hsome
      | ok b =>
        obtain ⟨hdecides, hmeets⟩ := RowView.decides_holdsAll hholds
        rw [hmeets]
        exact ⟨hdecides, by simp [Except.toOption, TableScan.surfaces, Step.of]⟩
    refine ⟨List.filter_congr fun r hr => ?_, fun r hr => (htest r hr).1⟩
    rw [Bool.eq_iff_iff, decide_eq_true_iff]
    exact (htest r hr).2

def buffered (r : RowView × Bool) : RowView × Bool := (.owned (r.1.copy.toOption.getD default), r.2)

private theorem buffered_of_copies {rs : List (RowView × Bool)} {rows : List (Row × Step)}
    (h : (rs.mapM fun r => r.1.copy.map (·, Step.of r.2)) = .ok rows) :
    (∀ r ∈ rs, (buffered r).1.find = r.1.find) ∧ replayed rows = rs.map buffered := by
  induction rs generalizing rows with
  | nil =>
    cases h
    exact ⟨nofun, rfl⟩
  | cons r rs ih =>
    obtain ⟨_, rest, hcopy, hrest, rfl⟩ := mapM_eq_ok_cons h
    obtain ⟨row, hrow, rfl⟩ := map_eq_ok.mp hcopy
    obtain ⟨hfind, hout⟩ := ih hrest
    have hbuffered : buffered r = (.owned row, r.2) := by
      rw [buffered, hrow]
      rfl
    refine ⟨List.forall_mem_cons.mpr ⟨?_, hfind⟩, ?_⟩
    · rw [hbuffered, RowView.find_of_copy hrow]
      exact RowView.find_of_copy (RowView.copy_owned (RowView.length_of_copy hrow))
    · rw [List.map_cons, ← hout, hbuffered]
      cases r.2 <;> rfl

theorem completed_cached_eq_some {out : List (RowView × Bool)} (h : q.cached.completed R = some out) :
    ∃ rs, q.completed R = some rs ∧ (∀ r ∈ rs, (buffered r).1.find = r.1.find) ∧
      out = rs.map buffered := by
  rw [completed_cached] at h
  obtain ⟨rs, hrs, h⟩ := Option.bind_eq_some_iff.mp h
  obtain ⟨rows, hrows, rfl⟩ := Option.map_eq_some_iff.mp h
  have hfold : rs.foldlM (fun rows r => Operator.collectRow {} rows r.1 (.of r.2)) #[] =
      (rs.mapM fun r : RowView × Bool => r.1.copy.map (·, Step.of r.2)).map
        fun ys => #[] ++ ys.toArray := by
    rw [← foldlM_push_eq]
    congr 1
    funext rows r
    rw [Operator.collectRow]
    cases r.1.copy <;> rfl
  rw [toOption_eq_some, hfold] at hrows
  obtain ⟨ys, hys, rfl⟩ := map_eq_ok.mp hrows
  rw [Array.empty_append, List.toList_toArray]
  exact ⟨rs, hrs, buffered_of_copies hys⟩

theorem narrows_cached (h : Narrows R es names p q) : Narrows R es names p.cached q.cached := by
  have hmeets : ∀ {r : RowView × Bool}, (buffered r).1.find = r.1.find →
      (buffered r).1.meetsAll es = r.1.meetsAll es ∧
        ((buffered r).1.Decides es ↔ r.1.Decides es) := by
    intro r hfind
    simp only [RowView.Decides, RowView.meetsAll, RowView.holds, hfind]
    exact ⟨rfl, Iff.rfl⟩
  constructor
  · intro out hout o ho
    obtain ⟨rs, hrs, hfind, rfl⟩ := completed_cached_eq_some hout
    obtain ⟨r, hr, rfl⟩ := List.mem_map.mp ho
    obtain ⟨hr2, hcells⟩ := h.named rs hrs r hr
    refine ⟨hr2, ?_⟩
    rw [RowView.CellsOf, hfind r hr]
    exact hcells
  · intro pout qout hpout hqout
    obtain ⟨ps, hps, _, rfl⟩ := completed_cached_eq_some hpout
    obtain ⟨qs, hqs, hfind, rfl⟩ := completed_cached_eq_some hqout
    obtain ⟨rfl, hdecides⟩ := h.kept ps qs hps hqs
    refine ⟨?_, ?_⟩
    · rw [List.filter_map]
      congr 1
      exact List.filter_congr fun r hr => (hmeets (hfind r hr)).1.symm
    · intro o ho
      obtain ⟨r, hr, rfl⟩ := List.mem_map.mp ho
      exact (hmeets (hfind r hr)).2.mpr (hdecides r hr)

theorem completed_filtering_eq_some {policy : ConflictPolicy} {terms : List Expr}
    {out : List (RowView × Bool)} (h : (q.filtering policy terms).completed R = some out) :
    ∃ qs, q.completed R = some qs ∧
      ((∀ r ∈ qs, r.2 = false) → out = qs.filter fun r => r.1.meetsAll terms) := by
  unfold filtering at h
  cases hterms : Expr.ofConjuncts? terms with
  | none =>
    rw [hterms] at h
    have hnil : terms = [] := by
      cases terms with
      | nil => rfl
      | cons t ts => cases ts <;> cases hterms
    rw [hnil]
    exact ⟨out, h, fun _ => (List.filter_eq_self.mpr fun _ _ => rfl).symm⟩
  | some condition =>
    rw [hterms, completed_filter] at h
    obtain ⟨qs, hqs, h⟩ := Option.bind_eq_some_iff.mp h
    obtain ⟨_, rfl⟩ := keepAll_eq_some.mp h
    refine ⟨qs, hqs, fun huncontested => List.filter_congr fun r hr => ?_⟩
    rw [Bool.eq_iff_iff, decide_eq_true_iff, RowView.meetsAll_eq_true, Stream.passes,
      RowView.holds_joined_empty, huncontested r hr]
    refine Iff.trans ?_ (Expr.holds_ofConjuncts? hterms)
    rw [RowView.holds]
    cases condition.holds r.1.find <;> simp [Except.toOption, TableScan.surfaces, Step.of]

/-- The conditions that `p` has tested early, and the terms that it tests above, are the terms that `q`
tests above. -/
theorem completed_filtering_narrowed {policy : ConflictPolicy} {rest terms : List Expr}
    {ps qs : List (RowView × Bool)} (h : Narrows R es names p q)
    (hsplit : ∀ find : Lookup, (∀ e ∈ es ++ rest, e.holds find = .ok true) ↔
      ∀ e ∈ terms, e.holds find = .ok true)
    (hps : (p.filtering policy rest).completed R = some ps)
    (hqs : (q.filtering policy terms).completed R = some qs) : ps = qs := by
  obtain ⟨ps', hps', hp⟩ := completed_filtering_eq_some hps
  obtain ⟨qs', hqs', hq⟩ := completed_filtering_eq_some hqs
  obtain ⟨rfl, _⟩ := h.kept ps' qs' hps' hqs'
  have huncontested : ∀ r ∈ qs', r.2 = false := fun r hr => (h.named qs' hqs' r hr).1
  rw [hp fun r hr => huncontested r (List.mem_filter.mp hr).1, hq huncontested, List.filter_filter]
  refine List.filter_congr fun r _ => ?_
  rw [Bool.and_comm, ← RowView.meetsAll_append, Bool.eq_iff_iff, RowView.meetsAll_eq_true,
    RowView.meetsAll_eq_true]
  exact hsplit r.1.find

end QueryTree

/-! ## Contested rows -/

namespace QueryTree

variable {R : Reader}

private theorem uncontested_replayed {rows : List (Row × Step)} (h : ∀ r ∈ rows, r.2 = .row) :
    ∀ r ∈ replayed rows, r.2 = false := by
  intro r hr
  obtain ⟨row, hrow, rfl⟩ := List.mem_map.mp hr
  simp [h row hrow]

theorem uncontested_completed (hR : ∀ v, R.see .read v ≠ .contested) {q : QueryTree}
    (hq : q.ReadOnly) {rs : List (RowView × Bool)} (h : q.completed R = some rs) :
    ∀ r ∈ rs, r.2 = false := by
  induction q generalizing rs with
  | scan s =>
    rw [completed_scan, show s.access = .read from hq] at h
    obtain ⟨_, rfl⟩ := keepAll_eq_some.mp h
    intro r hr
    obtain ⟨seen, hseen, rfl⟩ := List.mem_map.mp (List.mem_filter.mp hr).1
    exact (Reader.mem_seen_read hR hseen).2.2
  | filter condition policy q ih =>
    rw [completed_filter] at h
    obtain ⟨qs, hqs, h⟩ := Option.bind_eq_some_iff.mp h
    obtain ⟨_, rfl⟩ := keepAll_eq_some.mp h
    exact fun r hr => ih hq hqs r (List.mem_filter.mp hr).1
  | literal items =>
    cases h
    intro r hr
    cases List.mem_singleton.mp hr
    rfl
  | project items q ih =>
    rw [completed_project] at h
    obtain ⟨qs, hqs, rfl⟩ := Option.map_eq_some_iff.mp h
    intro r hr
    obtain ⟨r', hr', rfl⟩ := List.mem_map.mp hr
    exact ih hq hqs r' hr'
  | rename qualifier q ih =>
    rw [completed_rename] at h
    obtain ⟨qs, hqs, rfl⟩ := Option.map_eq_some_iff.mp h
    intro r hr
    obtain ⟨r', hr', rfl⟩ := List.mem_map.mp hr
    exact ih hq hqs r' hr'
  | join left right ihl ihr =>
    obtain ⟨ls, hls, h⟩ := completed_join_eq_some.mp h
    rcases h with ⟨_, rfl⟩ | ⟨_, rs, hrs, rfl⟩
    · exact nofun
    · intro o ho
      obtain ⟨l, hl, ho⟩ := List.mem_flatMap.mp ho
      obtain ⟨r, hr, rfl⟩ := List.mem_map.mp ho
      rw [ihl hq.1 hls l hl, ihr hq.2 hrs r hr]
      rfl
  | aggregate groupBy calls q ih =>
    rw [completed_aggregate] at h
    obtain ⟨qs, hqs, h⟩ := Option.bind_eq_some_iff.mp h
    obtain ⟨groups, hgroups, rfl⟩ := Option.map_eq_some_iff.mp h
    have hall : ∀ g ∈ groups, g.contested = false := by
      refine foldlM_keeps (P := fun groups : Array Group => ∀ g ∈ groups, g.contested = false) ?_
        (by simp) (toOption_eq_some.mp hgroups)
      intro groups r hr groups' hgroups hfeed
      rw [ih hq hqs r hr] at hfeed
      exact Group.uncontested_feedGroups hgroups hfeed
    exact uncontested_replayed fun r hr => Group.step_outputs hall r (Array.mem_toList_iff.mp hr)
  | sort keys q ih =>
    obtain ⟨qs, keyed, rows, hqs, hkeyed, hsorted, rfl⟩ := completed_sort_eq_some h
    have hall : ∀ k ∈ keyed, k.step = .row := by
      refine foldlM_keeps (P := fun rows : Array KeyedRow => ∀ k ∈ rows, k.step = .row) ?_
        (by simp) hkeyed
      intro rows r hr rows' hrows hadd
      rw [ih hq hqs r hr] at hadd
      exact KeyedRow.step_collectKeyed (p := (· = .row)) hrows rfl hadd
    exact uncontested_replayed fun r hr =>
      KeyedRow.step_sorted (p := (· = .row)) hall hsorted r (Array.mem_toList_iff.mp hr)
  | cached q ih =>
    obtain ⟨qs, hqs, _, rfl⟩ := completed_cached_eq_some h
    intro r hr
    obtain ⟨r', hr', rfl⟩ := List.mem_map.mp hr
    exact ih hq hqs r' hr'

end QueryTree

end SnapshotSql
