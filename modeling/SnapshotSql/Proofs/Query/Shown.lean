import SnapshotSql.Proofs.Query.Rows
/-! # Streams that show rows -/

namespace SnapshotSql

namespace Stream

variable {s : Stream} {rs rs' : List Row} {v : RowView} {r : Row}

/-- The views of the stream can be copied, and the copies are the rows. -/
inductive Shows : Stream → List Row → Prop
  | done : Shows .done []
  | row {v : RowView} {r : Row} {rest : Stream} {rs : List Row} (hv : v.copy = .ok r)
      (h : Shows rest rs) : Shows (.row v false rest) (r :: rs)
  | touch {rest : Stream} {rs : List Row} (h : Shows rest rs) : Shows (.touch rest) rs

theorem shows_touchIf {opened : Bool} (h : s.Shows rs) : (s.touchIf opened).Shows rs := by
  cases opened with
  | false => exact h
  | true => exact .touch h

theorem shows_append {s' : Stream} (h : s.Shows rs) (h' : s'.Shows rs') :
    (s.append s').Shows (rs ++ rs') := by
  induction h with
  | done => exact h'
  | row hv _ ih => exact .row hv ih
  | touch _ ih => exact .touch ih

theorem shows_map {f : RowView → RowView} {g : Row → Except ExecError Row}
    (hf : ∀ v r r', v.copy = .ok r → g r = .ok r' → (f v).copy = .ok r') (h : s.Shows rs)
    (hrs : rs.mapM g = .ok rs') : (s.map fun v c => (f v, c)).Shows rs' := by
  induction h generalizing rs' with
  | done =>
    cases hrs
    exact .done
  | @row v r rest rs hv _ ih =>
    obtain ⟨r', rest', hr, hrest, rfl⟩ := mapM_eq_ok_cons hrs
    exact .row (hf v r r' hv hr) (ih hrest)
  | touch _ ih => exact .touch (ih hrs)

theorem shows_sift {policy : ConflictPolicy} {test : RowView → Except ExecError Bool}
    {test' : Row → Except ExecError Bool} (htest : ∀ v r, v.copy = .ok r → test v = test' r)
    (h : s.Shows rs) (hrs : Row.keep test' rs = .ok rs') : (s.sift policy test).Shows rs' := by
  induction h generalizing rs' with
  | done =>
    cases hrs
    exact .done
  | @row v r rest rs hv _ ih =>
    obtain ⟨passed, hpassed, hrs⟩ := bind_eq_ok.mp hrs
    obtain ⟨kept, hkept, hrs⟩ := bind_eq_ok.mp hrs
    have hsurfaces : TableScan.surfaces policy (.of false) = false := rfl
    cases hrs
    rw [sift_row, htest v r hv, hpassed, hsurfaces]
    cases passed with
    | false => exact ih hkept
    | true => exact .row hv (ih hkept)
  | touch _ ih => exact .touch (ih hrs)

theorem shows_joinWith {touches : Bool} {right : Except ExecError Stream} {pairs : List (List Row)}
    {rows : Except ExecError (List Row)}
    (hright : ∀ rs, rows = .ok rs → ∃ t, right = .ok t ∧ t.Shows rs) (h : s.Shows rs)
    (hpairs : (rs.mapM fun l => do
      let rs ← rows
      pure (rs.map l.beside)) = .ok pairs) : (s.joinWith touches right).Shows pairs.flatten := by
  induction h generalizing pairs with
  | done =>
    cases hpairs
    exact .done
  | @row v r rest ls hv _ ih =>
    obtain ⟨here, pairs, hhere, hrest, rfl⟩ := mapM_eq_ok_cons hpairs
    obtain ⟨rs, hrs, hhere⟩ := bind_eq_ok.mp hhere
    obtain ⟨t, ht, hshows⟩ := hright rs hrs
    cases hhere
    have hmap : (t.map fun rv rc => (RowView.joined v rv, false || rc)).Shows (rs.map r.beside) := by
      refine shows_map (g := fun r' => .ok (r.beside r')) ?_ hshows List.mapM_pure
      intro rv r' joined hrv hjoined
      cases hjoined
      exact RowView.copy_joined hv hrv
    have htail := ih hrest
    rw [joinWith, ht] at htail
    rw [joinWith, bind, ht, List.flatten_cons, append_touchIf]
    exact shows_touchIf (shows_append hmap htail)
  | touch _ ih => exact .touch (ih hpairs)

theorem shows_replay (h : ∀ r ∈ rs, r.names.length = r.values.length) :
    (replay (rs.map fun r => (r, .row))).Shows rs := by
  induction rs with
  | nil => exact .done
  | cons r rs ih =>
    have hcopy := RowView.copy_owned (h r List.mem_cons_self)
    exact .row hcopy (ih fun r' hr' => h r' (List.mem_cons_of_mem r hr'))

theorem fold_of_shows {σ : Type} {f : σ → RowView → Step → Except ExecError σ}
    {g : σ → Row → Except ExecError σ} (hf : ∀ acc v r, v.copy = .ok r → f acc v .row = g acc r)
    (h : s.Shows rs) (acc : σ) : s.fold f acc = rs.foldlM g acc := by
  induction h generalizing acc with
  | done => rfl
  | @row v r rest rs hv _ ih =>
    have hstep : f acc v (.of false) = g acc r := hf acc v r hv
    rw [fold, hstep, List.foldlM_cons]
    cases g acc r with
    | error e => rfl
    | ok acc => exact ih acc
  | touch _ ih => exact ih acc

theorem length_of_shows (h : s.Shows rs) (hr : r ∈ rs) : r.names.length = r.values.length := by
  induction h with
  | done => cases hr
  | row hv _ ih =>
    rcases List.mem_cons.mp hr with rfl | hr
    · exact RowView.length_of_copy hv
    · exact ih hr
  | touch _ ih => exact ih hr

end Stream

end SnapshotSql
