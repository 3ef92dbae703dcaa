import SnapshotSql.Proofs.Query.Shuffled
import SnapshotSql.Proofs.Session.Drive
import SnapshotSql.Proofs.Session.System
/-! # Sums over reordered rows -/

namespace SnapshotSql

namespace Session

open Integer (Fits Overflows total)

variable {q : QueryTree} {t t' : TxHandle} {db db' : Database} {rs rs' : List (RowView × Bool)}

theorem toList_collectValues {stmt : Statement} {rows : Array (List Value)}
    (h : rs.foldlM (fun rows r => collectValues stmt db rows r.1 (.of r.2)) #[] = .ok rows) :
    rows.toList = rs.filterMap fun r => r.1.copy.toOption.map (·.values) := by
  have hcells := congrArg (List.filterMap Prod.fst) (foldlM_collectValues.mp h)
  rw [List.filterMap_map, List.filterMap_map] at hcells
  rw [show rows.toList = rows.toList.filterMap some from List.filterMap_some.symm]
  exact hcells.symm

theorem answers_shuffled {query : Select} {result result' : QueryResult} (hq : q.Fresh)
    (horderless : q.Orderless (db.reader t)) (h : db.Active t) (h' : db'.Active t')
    (hscans : ∀ s ∈ q.scans, ((db.reader t).shown anyRid s.access s.table).Perm
      ((db'.reader t').shown anyRid s.access s.table))
    (hresult : (drive (.select query) q.operator t db).answer = .ok result)
    (hresult' : (drive (.select query) q.operator t' db').answer = .ok result') :
    ∃ rows rows', result = .rows { columns := columnNames (.select query), rows := rows } ∧
      result' = .rows { columns := columnNames (.select query), rows := rows' } ∧ rows.Perm rows' := by
  have hread := answer_drive_select query hq h
  have hread' := answer_drive_select query hq h'
  rw [hresult] at hread
  rw [hresult'] at hread'
  obtain ⟨rows, hrows, rfl⟩ := Option.map_eq_some_iff.mp hread.symm
  obtain ⟨rs, hrs, hrows⟩ := Option.bind_eq_some_iff.mp hrows
  obtain ⟨rows', hrows', rfl⟩ := Option.map_eq_some_iff.mp hread'.symm
  obtain ⟨rs', hrs', hrows'⟩ := Option.bind_eq_some_iff.mp hrows'
  refine ⟨_, _, rfl, rfl, ?_⟩
  rw [toList_collectValues (toOption_eq_some.mp hrows), toList_collectValues (toOption_eq_some.mp hrows')]
  refine (QueryTree.completed_shuffled horderless hscans hrs hrs').filterMap_perm fun r => ?_
  simp only [unnumbered, RowView.copy_renumber]
  cases r.1.copy <;> rfl

/-- An aggregation yields a row for each group if every key has a value and every call comes to one, and
otherwise fails as a key or a call does. A sum of integers comes to NULL if there are none, to the exact sum
if no sum on the way leaves 64 bits, and otherwise fails where one does. Where an aggregation reads the same
rows in another order, a group of the same key takes in the same integers, so that its sum is the same if
both come to a value, and both fail if the sum does not fit. The answers to a query over tables in another
order have the same rows if both come, up to their order. -/
theorem sums_reordered {groupBy : List Expr} {calls : List AggregateCall} {input input' : Operator}
    {buffer : Buffer} {rows : List Operator.Listed} {n : Nat}
    (hn : n + 1 = (Operator.aggregate groupBy calls input buffer).steps db.catalog)
    (h : Operator.Drains n t input db rows input' db') :
    ((∃ outs, (∀ r ∈ rows, r.1.evalAll groupBy = .ok (Group.keyOf groupBy r)) ∧
        Group.gathered groupBy calls rows = .ok outs ∧
        (Operator.aggregate groupBy calls input buffer).Executes t db
          (outs.map fun r => (r.2, .ok r.1)) (.ok ())) ∨
      ∃ e, ((∃ r ∈ rows, r.1.evalAll groupBy = .error e) ∨
          ∃ p ∈ Group.wholeParts groupBy rows, ∃ call ∈ calls, call.outcome p.members = .error e) ∧
        (Operator.aggregate groupBy calls input buffer).Executes t db [] (.error e)) ∧
    (∀ p ∈ Group.wholeParts groupBy rows, ∀ call ∈ calls, call.SumsIntegers p.members →
      Value.Adds (call.addends p.members) (call.outcome p.members)) ∧
    (∀ rows', Group.Rearranged groupBy calls rows rows' →
      (∀ e ∈ groupBy, ∀ r ∈ rows, ∃ v, r.1.eval e = .ok v) →
      (∀ e ∈ groupBy, Value.Unblurred (Operator.column e rows)) →
      ∀ p ∈ Group.parts groupBy rows, ∃ p' ∈ Group.parts groupBy rows',
        Group.sameKey p.key p'.key = true ∧
        ∀ call ∈ calls, call.SumsIntegers p.members →
          (∀ v w, call.outcome p.members = .ok v → call.outcome p'.members = .ok w → v = w) ∧
          (¬Fits (total (call.addends p.members)) → ∃ e e',
            Overflows (call.addends p.members) e ∧ call.outcome p.members = .error e ∧
            Overflows (call.addends p'.members) e' ∧ call.outcome p'.members = .error e')) ∧
    (∀ (query : Select) (q : QueryTree) (t₁ t₂ : TxHandle) (db₁ db₂ : Database), q.Fresh →
      q.Orderless (db₁.reader t₁) → db₁.Active t₁ → db₂.Active t₂ →
      (∀ s ∈ q.scans, ((db₁.reader t₁).shown anyRid s.access s.table).Perm
        ((db₂.reader t₂).shown anyRid s.access s.table)) →
      ∀ result₁ result₂, (drive (.select query) q.operator t₁ db₁).answer = .ok result₁ →
        (drive (.select query) q.operator t₂ db₂).answer = .ok result₂ →
        ∃ rows₁ rows₂, result₁ = .rows { columns := columnNames (.select query), rows := rows₁ } ∧
          result₂ = .rows { columns := columnNames (.select query), rows := rows₂ } ∧
          rows₁.Perm rows₂) := by
  refine ⟨Operator.executes_gathered hn h, fun p _ call _ hsums => AggregateCall.adds_outcome hsums, ?_, ?_⟩
  · intro rows' hrearranged hkeys hcolumns p hp
    obtain ⟨p', hp', hsame, hmembers⟩ := Group.exists_part_rearranged hrearranged
      (Group.classifies_of_unblurred hkeys hcolumns) hp
    refine ⟨p', hp', hsame, fun call hcall hsums => ?_⟩
    have hinputs := Group.inputs_perm hmembers hcall
    exact Value.Adds.perm (AggregateCall.addends_perm hinputs) (AggregateCall.adds_outcome hsums)
      (AggregateCall.adds_outcome ⟨hsums.1, hsums.2.perm hinputs⟩)
  · intro query q t₁ t₂ db₁ db₂ hq horderless h₁ h₂ hscans result₁ result₂ hresult₁ hresult₂
    exact answers_shuffled hq horderless h₁ h₂ hscans hresult₁ hresult₂

/-- A table of some numbers, and a transaction that reads it. -/
def stored (ns : List Int64) : Database :=
  History.final ([.keepTable ⟨"t", [⟨"a", .integer, true⟩]⟩, .begin .readCommitted] ++
    ns.map (fun n => .insertRow ⟨0⟩ ⟨0⟩ [.integer n]) ++ [.commit ⟨0⟩, .begin .readCommitted])

/-- `SUM(t.a)` -/
def sumOfStored : AggregateCall := ⟨.sum, some (.field ⟨"t", "a", .integer⟩)⟩

/-- `SELECT SUM(t.a) FROM t` -/
def selectSum : Select where
  items := [⟨.aggregate .sum (some (.field ⟨"t", "a", .integer⟩)), none⟩]
  sources := [⟨.table ⟨0⟩, none⟩]
  filter := none
  groupBy := []
  having := none
  orderBy := []

/-- The query tree of `SELECT SUM(t.a) FROM t`. -/
def sumTree : QueryTree :=
  .project selectSum.items (.aggregate [] [sumOfStored] (.scan
    { table := ⟨0⟩, columns := [0], names := [.qualified "t" "a"], access := .read, predicates := [],
      policy := .absorbUnmatched }))

def answered (answer : Except ExecError QueryResult) : Option (List (List Value)) :=
  match answer with
  | .ok (.rows set) => some set.rows
  | _ => none

theorem rows_of_answered {answer : Except ExecError QueryResult} (h : (answered answer).isSome) :
    ∃ set : ResultSet, answer = .ok (.rows set) := by
  unfold answered at h
  split at h
  · exact ⟨_, rfl⟩
  · cases h

def pairKeys : List Expr := [.field ⟨"t", "k", .integer⟩]

/-- `SUM(t.n)` over the pairs. -/
def sumOfPairs : AggregateCall := ⟨.sum, some (.field ⟨"t", "n", .integer⟩)⟩

theorem takesIntegers_pairs : sumOfPairs.TakesIntegers Operator.pairRows := by
  refine ⟨_, rfl, ?_⟩
  simp only [Operator.pairRows, Operator.pairs, List.map_cons, List.map_nil, List.forall_mem_cons]
  exact ⟨.inr ⟨2, rfl⟩, .inl rfl, .inr ⟨5, rfl⟩, fun _ h => absurd h List.not_mem_nil⟩

theorem orderless_sumTree : sumTree.Orderless ((stored [2, 5]).reader ⟨1⟩) := by
  refine ⟨trivial, fun rows hrows => ⟨fun _ _ _ _ _ => rfl, fun p hp call hcall => ?_⟩⟩
  cases List.mem_singleton.mp hcall
  refine .inr (.inl (AggregateCall.TakesIntegers.mono ?_ (Group.members_subset p hp)))
  refine ⟨_, rfl, fun r hr => .inr ?_⟩
  obtain ⟨⟨view, contested⟩, hview, rfl⟩ := List.mem_map.mp hr
  rw [QueryTree.completed_scan] at hrows
  obtain ⟨-, rfl⟩ := keepAll_eq_some.mp hrows
  obtain ⟨⟨v, _⟩, hseen, hview⟩ := List.mem_map.mp (List.mem_filter.mp hview).1
  cases hview
  have hversions : ∀ v ∈ ((stored [2, 5]).reader ⟨1⟩).versions ⟨0⟩,
      v.values = [.integer 2] ∨ v.values = [.integer 5] := by decide +kernel
  obtain ⟨rid, values, creator, deleter⟩ := v
  rcases hversions _ (Reader.mem_seen hseen).1 with rfl | rfl
  · exact ⟨2, rfl⟩
  · exact ⟨5, rfl⟩

theorem sums_reordered_pairs :
    (∃ input', Operator.Drains 0x4000000000000009 ⟨0⟩ (.stringList Operator.pairs) {} Operator.pairRows
      input' {}) ∧
    (∃ p ∈ Group.parts pairKeys Operator.pairRows, ∃ p' ∈ Group.parts pairKeys Operator.pairRows.reverse,
      Group.sameKey p.key p'.key = true ∧ sumOfPairs.SumsIntegers p.members ∧
      Value.Adds (sumOfPairs.addends p.members) (sumOfPairs.outcome p.members) ∧
      ∀ v w, sumOfPairs.outcome p.members = .ok v → sumOfPairs.outcome p'.members = .ok w → v = w) ∧
    ∃ set₁ set₂ : ResultSet,
      (drive (.select selectSum) sumTree.operator ⟨1⟩ (stored [2, 5])).answer = .ok (.rows set₁) ∧
      (drive (.select selectSum) sumTree.operator ⟨1⟩ (stored [5, 2])).answer = .ok (.rows set₂) ∧
      set₁.rows.Perm set₂.rows := by
  have hsteps : ∀ r ∈ Operator.pairs.buffer.rows.toList, r.2 ≠ .done := by decide
  obtain ⟨input', hdrains⟩ := Operator.drains_stringList (n := 0x4000000000000009) Operator.pairs hsteps
    (by decide) ⟨0⟩ {}
  have hn : 0x4000000000000009 + 1 =
      (Operator.aggregate pairKeys [sumOfPairs] (.stringList Operator.pairs) {}).steps
        ({} : Database).catalog := rfl
  obtain ⟨-, hadds, hreordered, hselect⟩ := sums_reordered hn hdrains
  have hcall : sumOfPairs ∈ [sumOfPairs] := List.mem_singleton_self _
  refine ⟨⟨input', hdrains⟩, ?_, ?_⟩
  · obtain ⟨p, hp, -⟩ : ∃ p ∈ Group.parts pairKeys Operator.pairRows, _ ∈ p.members :=
      Group.exists_part List.mem_cons_self
    have hsums : sumOfPairs.SumsIntegers p.members :=
      ⟨rfl, takesIntegers_pairs.mono (Group.members_subset p hp)⟩
    obtain ⟨p', hp', hsame, hmembers⟩ := hreordered Operator.pairRows.reverse
      ((List.reverse_perm _).symm.map _) Operator.groupable_pairs.keys
      (fun e he => (Operator.groupable_pairs.unmixed e he).unblurred) p hp
    exact ⟨p, hp, p', hp', hsame, hsums, hadds p (Group.mem_wholeParts hp) _ hcall hsums,
      (hmembers _ hcall hsums).1⟩
  · have hanswered : ∀ ns ∈ [[2, 5], [5, 2]],
        (answered (drive (.select selectSum) sumTree.operator ⟨1⟩ (stored ns)).answer).isSome := by
      decide +kernel
    obtain ⟨set₁, hset₁⟩ := rows_of_answered (hanswered [2, 5] (by simp))
    obtain ⟨set₂, hset₂⟩ := rows_of_answered (hanswered [5, 2] (by simp))
    obtain ⟨rows₁, rows₂, hrows₁, hrows₂, hperm⟩ := hselect selectSum sumTree ⟨1⟩ ⟨1⟩ (stored [2, 5])
      (stored [5, 2]) rfl orderless_sumTree ⟨by decide, rfl⟩ ⟨by decide, rfl⟩ (by decide +kernel) _ _
      hset₁ hset₂
    cases hrows₁
    cases hrows₂
    exact ⟨_, _, hset₁, hset₂, hperm⟩

/-- The largest integer, 1 and -1 add up in one order and not in another. -/
theorem sum_halfway :
    Fits (total [9223372036854775807, 1, -1]) ∧
      answered (drive (.select selectSum) sumTree.operator ⟨1⟩
        (stored [9223372036854775807, 1, -1])).answer = none ∧
      answered (drive (.select selectSum) sumTree.operator ⟨1⟩
        (stored [9223372036854775807, -1, 1])).answer = some [[.integer 9223372036854775807]] := by
  decide +kernel

end Session

end SnapshotSql
