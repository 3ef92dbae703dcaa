import SnapshotSql.Proofs.Query.Rows
/-! # Reading the results of aggregate calls -/

namespace SnapshotSql

namespace Expr

private theorem mem_of_mem_addCalls {known new : List AggregateCall} {c : AggregateCall}
    (h : c ∈ addCalls known new) : c ∈ known ∨ c ∈ new := by
  induction new generalizing known with
  | nil => exact .inl h
  | cons n new ih =>
    rw [addCalls, List.foldl_cons] at h
    rcases ih h with h | h
    · split at h
      · exact .inl h
      · rcases List.mem_append.mp h with h | h
        · exact .inl h
        · rw [List.mem_singleton.mp h]
          exact .inr List.mem_cons_self
    · exact .inr (List.mem_cons_of_mem n h)

private theorem subset_addCalls (known new : List AggregateCall) : known ⊆ addCalls known new := by
  induction new generalizing known with
  | nil => exact List.Subset.refl known
  | cons n new ih =>
    rw [addCalls, List.foldl_cons]
    refine List.Subset.trans ?_ (ih _)
    split
    · exact List.Subset.refl known
    · exact List.subset_append_left known [n]

private theorem exists_mem_addCalls {known new : List AggregateCall} {c : AggregateCall}
    (h : c ∈ new) : ∃ k ∈ addCalls known new, k = c ∨ k.same c = true := by
  induction new generalizing known with
  | nil => cases h
  | cons n new ih =>
    rw [addCalls, List.foldl_cons]
    rcases List.mem_cons.mp h with rfl | h
    · split
      · rename_i hany
        obtain ⟨k, hk, hsame⟩ := List.any_eq_true.mp hany
        exact ⟨k, subset_addCalls known new hk, .inr hsame⟩
      · exact ⟨c, subset_addCalls _ new (List.mem_append_right known List.mem_cons_self), .inl rfl⟩
    · exact ih h

theorem exists_mem_distinctCalls {es : List Expr} {call : AggregateCall}
    (h : call ∈ es.flatMap calls) : ∃ k ∈ distinctCalls es, k = call ∨ k.same call = true :=
  exists_mem_addCalls h

theorem mem_distinctCalls {es : List Expr} {call : AggregateCall} (h : call ∈ es.flatMap calls)
    (hcalls : ∀ other ∈ es.flatMap calls, other.same call = true → other = call) :
    call ∈ distinctCalls es := by
  obtain ⟨k, hk, hsame⟩ := exists_mem_distinctCalls h
  rcases hsame with rfl | hsame
  · exact hk
  · rcases mem_of_mem_addCalls hk with hnil | hmem
    · cases hnil
    · exact hcalls k hmem hsame ▸ hk

theorem mem_of_mem_distinctCalls {es : List Expr} {call : AggregateCall}
    (h : call ∈ distinctCalls es) : call ∈ es.flatMap calls := by
  rcases mem_of_mem_addCalls h with hnil | hmem
  · cases hnil
  · exact hmem

end Expr

namespace Row

variable {calls : List AggregateCall} {call : AggregateCall} {members : List Row}

/-- The first result under the text of a call is that of the call if no other call has this text. -/
private theorem find_results {values : List Value} (h : calls.mapM (·.resultOn members) = .ok values)
    (hcall : call ∈ calls) (htexts : ∀ other ∈ calls, other.render = call.render → other = call) :
    ∃ v, call.resultOn members = .ok v ∧
      (((calls.map fun c => CellName.plain c.render).zip values).find? fun cell =>
        cell.1.answers (.plain call.render)).map (·.2) = some v := by
  induction calls generalizing values with
  | nil => cases hcall
  | cons c calls ih =>
    obtain ⟨v, rest, hv, hrest, rfl⟩ := mapM_eq_ok_cons h
    by_cases hc : c.render = call.render
    · obtain rfl := htexts c List.mem_cons_self hc
      exact ⟨v, hv, by simp [CellName.answers, CellName.plain]⟩
    · have hmem : call ∈ calls := by
        rcases List.mem_cons.mp hcall with rfl | hmem
        · exact absurd rfl hc
        · exact hmem
      obtain ⟨w, hw, hfind⟩ := ih hrest hmem fun other ho => htexts other (List.mem_cons_of_mem c ho)
      refine ⟨w, hw, ?_⟩
      rw [List.map_cons, List.zip_cons_cons, List.find?_cons_of_neg]
      · exact hfind
      · simpa [CellName.answers, CellName.plain] using hc

/-- A call of a grouped query reads its own result, if its text is that of no key and of no other
call, and if it equals no call but itself. -/
theorem eval_call {groupBy above : List Expr} {key : List Value} {r : Row}
    (hr : Row.ofGroup groupBy (Expr.distinctCalls above) (key, members) = .ok r)
    (hkey : key.length = groupBy.length) (hcall : call ∈ above.flatMap Expr.calls)
    (hkeys : ∀ e ∈ groupBy, (SelectItem.mk e none).cellName.field ≠ call.render)
    (hcalls : ∀ other ∈ above.flatMap Expr.calls,
      other.render = call.render ∨ other.same call = true → other = call) :
    r.eval (.aggregate call.fn call.arg) = call.resultOn members := by
  obtain ⟨values, hvalues, hr⟩ := bind_eq_ok.mp hr
  cases hr
  have hmem := Expr.mem_distinctCalls hcall fun other ho hsame => hcalls other ho (.inr hsame)
  obtain ⟨v, hv, hfind⟩ := find_results hvalues hmem fun other ho htext =>
    hcalls other (Expr.mem_of_mem_distinctCalls ho) (.inl htext)
  have hcell : Row.cell? ⟨Group.cellNames groupBy (Expr.distinctCalls above), key ++ values, none⟩
      (.plain call.render) = some v := by
    rw [cell?, Group.cellNames, List.zip_append (by rw [List.length_map, hkey]), List.find?_append,
      List.find?_eq_none.mpr, Option.none_or]
    · exact hfind
    · intro cell hcell
      obtain ⟨e, he, hname⟩ := List.mem_map.mp (List.of_mem_zip hcell).1
      simpa [CellName.answers, CellName.plain, ← hname] using hkeys e he
  have hfound : Row.find ⟨Group.cellNames groupBy (Expr.distinctCalls above), key ++ values, none⟩
      (.plain call.render) = .ok (some v) := congrArg Except.ok hcell
  rw [hv, eval, Expr.eval, Lookup.require]
  change Row.find _ (.plain call.render) >>= _ = _
  rw [hfound]
  rfl

def threeColumns : Row where
  names := [.qualified "t" "a", .qualified "t" "b", .qualified "t" "c"]
  values := [.integer 1, .integer 2, .integer 3]

/-- The argument `(a + b) * c` or `a + b * c`. Both have the same text. -/
def mixedArgument (sumFirst : Bool) : Expr :=
  let column (name : String) : Expr := .field ⟨"t", name, .integer⟩
  if sumFirst then .arithmetic .mul (.arithmetic .add (column "a") (some (column "b"))) (column "c")
  else .arithmetic .add (column "a") (some (.arithmetic .mul (column "b") (column "c")))

/-- The select list `COUNT(*), SUM((a + b) * c)`. -/
def countAndSum : List Expr :=
  [.aggregate .count none, .aggregate .sum (some (mixedArgument true))]

/-- The row of the group of `threeColumns`. -/
def countAndSumRow : Row where
  names := [.qualified "t" "a", .plain "COUNT(*)", .plain "SUM(t.a+t.b*t.c)"]
  values := [.integer 1, .integer 1, .integer 9]

theorem eval_call_threeColumns :
    Row.ofGroup [.field ⟨"t", "a", .integer⟩] (Expr.distinctCalls countAndSum)
        ([.integer 1], [threeColumns]) = .ok countAndSumRow ∧
      countAndSumRow.eval (.aggregate .sum (some (mixedArgument true))) =
        AggregateCall.resultOn ⟨.sum, some (mixedArgument true)⟩ [threeColumns] := by
  have hgroup : Row.ofGroup [.field ⟨"t", "a", .integer⟩] (Expr.distinctCalls countAndSum)
      ([.integer 1], [threeColumns]) = .ok countAndSumRow := rfl
  have hmem : (⟨.sum, some (mixedArgument true)⟩ : AggregateCall) ∈
      countAndSum.flatMap Expr.calls := List.mem_cons_of_mem _ List.mem_cons_self
  refine ⟨hgroup, eval_call hgroup rfl hmem ?_ ?_⟩
  · intro e he
    rw [List.mem_singleton.mp he]
    decide
  · intro other hother hclash
    rcases List.mem_cons.mp hother with rfl | hother
    · exact absurd hclash (by decide)
    · exact List.mem_singleton.mp hother

/-- Of two calls with the same text, the second one reads the result of the first. -/
theorem eval_call_sameText :
    (Row.ofGroup [] (Expr.distinctCalls [.aggregate .sum (some (mixedArgument true)),
        .aggregate .sum (some (mixedArgument false))]) ([], [threeColumns])).bind
      (·.eval (.aggregate .sum (some (mixedArgument false)))) = .ok (.integer 9) ∧
    AggregateCall.resultOn ⟨.sum, some (mixedArgument false)⟩ [threeColumns] = .ok (.integer 7) :=
  ⟨rfl, rfl⟩

end Row

end SnapshotSql
