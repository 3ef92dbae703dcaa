import SnapshotSql.Proofs.Query.Tree
/-! # Queries before their first scan -/

namespace SnapshotSql

namespace Stream

/-- Two streams are the same until the first scan is opened. -/
inductive SameStart : Stream → Stream → Prop
  | done : SameStart done done
  | fail (e : ExecError) : SameStart (fail e) (fail e)
  | row (view : RowView) (contested : Bool) {s s' : Stream} (h : SameStart s s') :
      SameStart (row view contested s) (row view contested s')
  | touch (s s' : Stream) : SameStart (touch s) (touch s')

variable {s s' t t' : Stream} {σ : Type} {f : σ → RowView → Step → Except ExecError σ}

theorem sameStart_refl (s : Stream) : SameStart s s := by
  induction s with
  | done => exact .done
  | fail e => exact .fail e
  | row v c s ih => exact .row v c ih
  | touch s => exact .touch s s

theorem sameStart_append (h : SameStart s s') (ht : SameStart t t') :
    SameStart (s.append t) (s'.append t') := by
  induction h with
  | done => exact ht
  | fail e => exact .fail e
  | row v c _ ih => exact .row v c ih
  | touch s s' => exact .touch _ _

theorem sameStart_map (g : RowView → Bool → RowView × Bool) (h : SameStart s s') :
    SameStart (s.map g) (s'.map g) := by
  induction h with
  | done => exact .done
  | fail e => exact .fail e
  | row v c _ ih => exact .row _ _ ih
  | touch s s' => exact .touch _ _

theorem sameStart_sift (policy : ConflictPolicy) (test : RowView → Except ExecError Bool)
    (h : SameStart s s') : SameStart (s.sift policy test) (s'.sift policy test) := by
  induction h with
  | done => exact .done
  | fail e => exact .fail e
  | row v c _ ih =>
    rw [sift_row, sift_row]
    cases test v with
    | error e => exact .fail e
    | ok passed =>
      dsimp only
      split
      · exact .row v c ih
      · exact ih
  | touch s s' => exact .touch _ _

theorem sameStart_bind {g g' : RowView → Bool → Stream} (hg : ∀ v c, SameStart (g v c) (g' v c))
    (h : SameStart s s') : SameStart (s.bind g) (s'.bind g') := by
  induction h with
  | done => exact .done
  | fail e => exact .fail e
  | row v c _ ih => exact sameStart_append (hg v c) ih
  | touch s s' => exact .touch _ _

theorem fold_sameStart (h : SameStart s s') (acc : σ) : s.foldTouches f acc = s'.foldTouches f acc ∧
    (s.foldTouches f acc = false → s.fold f acc = s'.fold f acc) := by
  induction h generalizing acc with
  | done => exact ⟨rfl, fun _ => rfl⟩
  | fail e => exact ⟨rfl, fun _ => rfl⟩
  | row v c _ ih =>
    rw [foldTouches, foldTouches, fold, fold]
    cases f acc v (.of c) with
    | error e => exact ⟨rfl, fun _ => rfl⟩
    | ok acc => exact ih acc
  | touch s s' =>
    refine ⟨rfl, fun htouches => ?_⟩
    rw [foldTouches] at htouches
    cases htouches

end Stream

def OpensSame : Except ExecError Stream → Except ExecError Stream → Prop
  | .error e, .error e' => e = e'
  | .ok s, .ok s' => s.SameStart s'
  | _, _ => False

theorem opensSame_refl (x : Except ExecError Stream) : OpensSame x x := by
  cases x with
  | error e => rfl
  | ok s => exact Stream.sameStart_refl s

theorem opensSame_bind {x x' : Except ExecError Stream} {g g' : Stream → Stream}
    (hg : ∀ s s', s.SameStart s' → (g s).SameStart (g' s')) (h : OpensSame x x') :
    OpensSame (x >>= fun s => pure (g s)) (x' >>= fun s => pure (g' s)) := by
  cases x <;> cases x' <;> first | exact hg _ _ h | exact h

namespace QueryTree

variable {R R' : Reader} {σ : Type} {f : σ → RowView → Step → Except ExecError σ}

theorem readTouches_opensSame {x x' : Except ExecError Stream} (h : OpensSame x x') (acc : σ) :
    Stream.readTouches f acc x = Stream.readTouches f acc x' ∧
      (Stream.readTouches f acc x = false → (x >>= Stream.fold f acc) = x' >>= Stream.fold f acc) := by
  cases x <;> cases x'
  case error.error e e' =>
    cases h
    exact ⟨rfl, fun _ => rfl⟩
  case ok.ok s s' => exact Stream.fold_sameStart h acc
  all_goals cases h

private theorem sameStart_pairs {x x' : Except ExecError Stream} (h : OpensSame x x') (l : RowView)
    (lc : Bool) : (Stream.pairs l lc x).SameStart (Stream.pairs l lc x') := by
  cases x <;> cases x'
  case error.error e e' =>
    cases h
    exact .fail e
  case ok.ok s s' => exact Stream.sameStart_map _ h
  all_goals cases h

private theorem untouched_buffered {b b' : Bool} {x x' : Except ExecError Stream} (acc : σ)
    (out : σ → Except ExecError Stream) (hb : b = b') (hx : b = false → OpensSame x x') :
    (b || Stream.readTouches f acc x) = (b' || Stream.readTouches f acc x') ∧
      ((b || Stream.readTouches f acc x) = false → OpensSame
        (do let s ← x
            let a ← s.fold f acc
            out a)
        (do let s ← x'
            let a ← s.fold f acc
            out a)) := by
  subst hb
  cases b with
  | true => exact ⟨rfl, nofun⟩
  | false =>
    obtain ⟨htouches, hfold⟩ := readTouches_opensSame (f := f) (hx rfl) acc
    refine ⟨htouches, fun h => ?_⟩
    have hsame := congrArg (· >>= out) (hfold h)
    simp only [bind_assoc] at hsame
    rw [hsame]
    exact opensSame_refl _

/-- A query opens a scan at once, or it is the same for all readers until it does. -/
theorem stream_untouched (R R' : Reader) (q : QueryTree) : q.touches R = q.touches R' ∧
    (q.touches R = false → OpensSame (q.stream R) (q.stream R')) := by
  induction q with
  | scan s => exact ⟨rfl, nofun⟩
  | filter condition policy q ih =>
    exact ⟨ih.1, fun h => opensSame_bind (fun _ _ => Stream.sameStart_sift _ _) (ih.2 h)⟩
  | literal items => exact ⟨rfl, fun _ => opensSame_refl _⟩
  | project items q ih =>
    exact ⟨ih.1, fun h => opensSame_bind (fun _ _ => Stream.sameStart_map _) (ih.2 h)⟩
  | join left right ihl ihr =>
    refine ⟨ihl.1, fun h => opensSame_bind (fun s s' hs => ?_) (ihl.2 h)⟩
    refine Stream.sameStart_bind (fun l lc => ?_) hs
    rw [← ihr.1]
    cases htouches : right.touches R with
    | true => exact .touch _ _
    | false => exact sameStart_pairs (ihr.2 htouches) l lc
  | aggregate groupBy calls q ih =>
    exact untouched_buffered #[]
      (fun groups => .ok (.replay (Group.outputs groupBy calls groups).toList)) ih.1 ih.2
  | sort keys q ih =>
    exact untouched_buffered #[] (fun keyed : Array KeyedRow => do
      let rows ← KeyedRow.sorted keys keyed.toList
      pure (.replay rows.toList)) ih.1 ih.2
  | rename qualifier q ih =>
    exact ⟨ih.1, fun h => opensSame_bind (fun _ _ => Stream.sameStart_map _) (ih.2 h)⟩
  | cached q ih => exact untouched_buffered #[] (fun rows => .ok (.replay rows.toList)) ih.1 ih.2

end QueryTree

end SnapshotSql
