import SnapshotSql.Proofs.Query.Completed
import SnapshotSql.Proofs.Query.Planned
/-! # What stands above the joins of a query -/

namespace SnapshotSql

namespace QueryTree

def filtering (policy : ConflictPolicy) (terms : List Expr) (q : QueryTree) : QueryTree :=
  match Expr.ofConjuncts? terms with
  | none => q
  | some condition => .filter condition policy q

def grouping (policy : ConflictPolicy) (s : Select) (q : QueryTree) : QueryTree :=
  if s.isAggregate then
    let groups := .aggregate s.groupBy (Expr.distinctCalls (s.items.map (·.expr) ++
      s.having.toList ++ s.orderBy.map (·.expr))) q
    match s.having with
    | none => groups
    | some having => .filter having policy groups
  else q

def finishing (policy : ConflictPolicy) (s : Select) (q : QueryTree) : QueryTree :=
  .project s.items (if s.orderBy.isEmpty then q.grouping policy s
    else .sort s.orderBy (q.grouping policy s))

variable {policy : ConflictPolicy} {s : Select} {q q' : QueryTree} {R : Reader}

theorem completed_grouping_congr (h : q.completed R = q'.completed R) :
    (q.grouping policy s).completed R = (q'.grouping policy s).completed R := by
  unfold grouping
  split
  · cases s.having with
    | none => simp only [completed_aggregate, h]
    | some having => simp only [completed_filter, completed_aggregate, h]
  · exact h

theorem completed_finishing_congr (h : q.completed R = q'.completed R) :
    (q.finishing policy s).completed R = (q'.finishing policy s).completed R := by
  have hgroups : (q.grouping policy s).completed R = (q'.grouping policy s).completed R :=
    completed_grouping_congr h
  unfold finishing
  rw [completed_project, completed_project]
  split
  · rw [hgroups]
  · rw [completed_sort, completed_sort, hgroups]

theorem completed_of_finishing {rs : List (RowView × Bool)}
    (h : (q.finishing policy s).completed R = some rs) : ∃ qs, q.completed R = some qs := by
  have hgroups : ∀ {out}, (q.grouping policy s).completed R = some out →
      ∃ qs, q.completed R = some qs := by
    intro out hout
    unfold grouping at hout
    split at hout
    · cases hhaving : s.having with
      | none =>
        rw [hhaving] at hout
        simp only [completed_aggregate] at hout
        obtain ⟨qs, hqs, _⟩ := Option.bind_eq_some_iff.mp hout
        exact ⟨qs, hqs⟩
      | some having =>
        rw [hhaving] at hout
        simp only [completed_filter, completed_aggregate] at hout
        obtain ⟨_, hout, _⟩ := Option.bind_eq_some_iff.mp hout
        obtain ⟨qs, hqs, _⟩ := Option.bind_eq_some_iff.mp hout
        exact ⟨qs, hqs⟩
    · exact ⟨out, hout⟩
  rw [finishing, completed_project] at h
  obtain ⟨out, hout, _⟩ := Option.map_eq_some_iff.mp h
  split at hout
  · exact hgroups hout
  · rw [completed_sort] at hout
    obtain ⟨out', hout', _⟩ := Option.bind_eq_some_iff.mp hout
    exact hgroups hout'

private theorem completed_grouping_nil (hgroup : s.isAggregate = true → s.groupBy ≠ [])
    (h : q.completed R = some []) : (q.grouping policy s).completed R = some [] := by
  unfold grouping
  split
  · rename_i haggregate
    have hgroups : ∀ calls, (QueryTree.aggregate s.groupBy calls q).completed R = some [] := by
      intro calls
      have hkeys : s.groupBy.isEmpty = false := by simp [hgroup haggregate]
      rw [completed_aggregate, h]
      simp [Group.outputs, hkeys, pure, Except.pure, Except.toOption, replayed]
    cases s.having with
    | none => exact hgroups _
    | some having =>
      simp only [completed_filter, hgroups]
      rfl
  · exact h

theorem completed_finishing_nil (hgroup : s.isAggregate = true → s.groupBy ≠ [])
    (h : q.completed R = some []) : (q.finishing policy s).completed R = some [] := by
  have hgroups : (q.grouping policy s).completed R = some [] := completed_grouping_nil hgroup h
  have hsort : (QueryTree.sort s.orderBy (q.grouping policy s)).completed R = some [] := by
    rw [completed_sort, hgroups]
    rfl
  unfold finishing
  rw [completed_project]
  split
  · rw [hgroups]
    rfl
  · rw [hsort]
    rfl

end QueryTree

namespace Plan

variable {c : Catalog} {policy : ConflictPolicy} {s : Select} {p joins : Plan} {q : QueryTree}

theorem tree_filtered {condition : Expr}
    (h : (filtered c condition p).tree c policy = .ok q) :
    ∃ q', p.tree c policy = .ok q' ∧ q = .filter condition policy q' := by
  rw [filtered, build, tree] at h
  obtain ⟨q', hq', h⟩ := bind_eq_ok.mp h
  obtain ⟨_, _, h⟩ := bind_eq_ok.mp h
  cases h
  exact ⟨q', hq', rfl⟩

private theorem tree_grouped {input : Plan} (h : grouped c s input = .ok p)
    (haggregate : s.isAggregate = true) (hq : p.tree c policy = .ok q) :
    ∃ q', input.tree c policy = .ok q' ∧ q = q'.grouping policy s := by
  have hbelow : ∀ {calls q}, (build c (.aggregate s.groupBy calls) [input]).tree c policy = .ok q →
      ∃ q', input.tree c policy = .ok q' ∧ q = .aggregate s.groupBy calls q' := by
    intro calls q hq
    rw [build, tree] at hq
    obtain ⟨q', hq', rfl⟩ := map_eq_ok.mp hq
    exact ⟨q', hq', rfl⟩
  obtain ⟨_, _, _, rfl⟩ := grouped_eq_ok h
  simp only [QueryTree.grouping, if_pos haggregate]
  cases hhaving : s.having with
  | none =>
    rw [hhaving] at hq
    exact hbelow hq
  | some having =>
    rw [hhaving] at hq
    obtain ⟨q', hq', rfl⟩ := tree_filtered hq
    obtain ⟨q'', hq'', rfl⟩ := hbelow hq'
    exact ⟨q'', hq'', rfl⟩

theorem tree_finish {rest : List Expr} (h : finish c s rest joins = .ok p)
    (hq : p.tree c policy = .ok q) : ∃ q', joins.tree c policy = .ok q' ∧
      q = (q'.filtering policy rest).finishing policy s := by
  have hfiltered : ∀ {q}, (residual c rest joins).tree c policy = .ok q →
      ∃ q', joins.tree c policy = .ok q' ∧ q = q'.filtering policy rest := by
    intro q hq
    unfold residual at hq
    unfold QueryTree.filtering
    cases hrest : Expr.ofConjuncts? rest with
    | none =>
      rw [hrest] at hq
      exact ⟨q, hq, rfl⟩
    | some condition =>
      rw [hrest] at hq
      exact tree_filtered hq
  obtain ⟨g, hg, rfl⟩ := finish_eq_ok h
  obtain ⟨q₁, hq₁, rfl⟩ : ∃ q', g.tree c policy = .ok q' ∧
      q = .project s.items (if s.orderBy.isEmpty then q' else .sort s.orderBy q') := by
    rw [build, tree] at hq
    obtain ⟨q', hq', rfl⟩ := map_eq_ok.mp hq
    split at hq'
    · rename_i horder
      exact ⟨q', hq', by rw [if_pos horder]⟩
    · rename_i horder
      rw [build, tree] at hq'
      obtain ⟨q'', hq'', rfl⟩ := map_eq_ok.mp hq'
      exact ⟨q'', hq'', by rw [if_neg horder]⟩
  rcases hg with ⟨haggregate, hg⟩ | ⟨haggregate, rfl⟩
  · obtain ⟨q₂, hq₂, rfl⟩ := tree_grouped hg haggregate hq₁
    obtain ⟨q₃, hq₃, rfl⟩ := hfiltered hq₂
    exact ⟨q₃, hq₃, rfl⟩
  · obtain ⟨q₂, hq₂, rfl⟩ := hfiltered hq₁
    refine ⟨q₂, hq₂, ?_⟩
    rw [QueryTree.finishing, QueryTree.grouping, if_neg (Bool.eq_false_iff.mp haggregate)]

variable {options : PlannerOptions}

private theorem ofSources_some {sources : List FromItem} {left out : Option Plan}
    {parts : List (List Nat × List Expr)} (hleft : left.isSome ∨ sources ≠ [])
    (h : ofSources c options left parts sources = .ok out) : ∃ p, out = some p := by
  induction sources generalizing left parts with
  | nil =>
    cases h
    exact Option.isSome_iff_exists.mp (hleft.resolve_right fun hne => hne rfl)
  | cons source sources ih =>
    obtain ⟨source, on⟩ := source
    cases source with
    | table id =>
      rw [ofSources] at h
      obtain ⟨plan, _, h⟩ := bind_eq_ok.mp h
      exact ih (.inl rfl) h
    | query select qualifier =>
      rw [ofSources] at h
      obtain ⟨inner, _, h⟩ := bind_eq_ok.mp h
      obtain ⟨plan, _, h⟩ := bind_eq_ok.mp h
      exact ih (.inl rfl) h

theorem hasAggregate_of_checkFilter {e : Expr} (h : checkFilter (some e) = .ok ()) :
    e.hasAggregate = false := by
  obtain ⟨_, _, h⟩ := bind_eq_ok.mp h
  cases hcalls : e.hasAggregate with
  | false => rfl
  | true =>
    rw [if_pos hcalls] at h
    cases h

theorem ofSelect_eq_ok {s : Select} {p : Plan} (hsources : s.sources ≠ [])
    (h : ofSelect c options s = .ok p) :
    ∃ needs joins, s.resolve (s.sources.map (ScopeEntry.ofFromItem c)) = .ok needs ∧
      checkFilter s.filter = .ok () ∧
      ofSources c options none (needs.zip (splitFilter (s.sources.map (ScopeEntry.ofFromItem c))
        s.filter).pushed) s.sources = .ok (some joins) ∧
      finish c s (splitFilter (s.sources.map (ScopeEntry.ofFromItem c)) s.filter).rest joins =
        .ok p := by
  obtain ⟨items, sources, filter, groupBy, having, orderBy⟩ := s
  rw [ofSelect] at h
  split at h
  · cases h
  · simp only at h hsources
    rw [if_neg (by simpa using hsources)] at h
    obtain ⟨needs, hneeds, h⟩ := bind_eq_ok.mp h
    obtain ⟨_, hfilter, h⟩ := bind_eq_ok.mp h
    obtain ⟨joined, hjoined, h⟩ := bind_eq_ok.mp h
    obtain ⟨joins, rfl⟩ := ofSources_some (.inr hsources) hjoined
    exact ⟨needs, joins, hneeds, hfilter, hjoined, h⟩

end Plan

end SnapshotSql
