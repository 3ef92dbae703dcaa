import SnapshotSql.Proofs.Query.Drained
import SnapshotSql.Proofs.Value.Order
/-! # Sorted rows -/

namespace SnapshotSql

namespace SortKey

def Before (key : SortKey) (x y : Value) : Prop :=
  x = .null ∧ y ≠ .null ∨
    x ≠ .null ∧ y ≠ .null ∧ x.totalCompare y = if key.ascending then .lt else .gt

/-- Some key puts the first tuple before the second one, and the keys before it do not tell them
apart. -/
def Precedes (keys : List SortKey) (xs ys : List Value) : Prop :=
  ∃ (i : Nat) (key : SortKey) (x y : Value), keys[i]? = some key ∧ xs[i]? = some x ∧
    ys[i]? = some y ∧ key.Before x y ∧
    ∀ j < i, ∀ x' y' : Value, xs[j]? = some x' → ys[j]? = some y' → x'.totalCompare y' = .eq

end SortKey

namespace KeyedRow

variable {key : SortKey} {keys : List SortKey} {x y z : Value} {xs ys zs : List Value}

/-! ## One key -/

theorem compareKey_null_left (h : y ≠ .null) : compareKey key .null y = .lt := by
  cases y with
  | null => exact absurd rfl h
  | _ => rfl

theorem compareKey_null_right (h : x ≠ .null) : compareKey key x .null = .gt := by
  cases x with
  | null => exact absurd rfl h
  | _ => rfl

theorem compareKey_values (hx : x ≠ .null) (hy : y ≠ .null) :
    compareKey key x y = if key.ascending then x.totalCompare y else y.totalCompare x := by
  cases x with
  | null => exact absurd rfl hx
  | _ =>
    cases y with
    | null => exact absurd rfl hy
    | _ => rfl

theorem compareKey_lt : compareKey key x y = .lt ↔ key.Before x y := by
  unfold SortKey.Before
  by_cases hx : x = .null
  · by_cases hy : y = .null
    · simp [hx, hy, compareKey, Value.isNull]
    · simp [hx, hy, compareKey_null_left hy]
  · by_cases hy : y = .null
    · simp [hx, hy, compareKey_null_right hx]
    · rw [compareKey_values hx hy]
      cases key.ascending
      · rw [Value.totalCompare_swap y x]
        cases x.totalCompare y <;> simp [hx, hy]
      · simp [hx, hy]

theorem compareKey_swap (key : SortKey) (x y : Value) :
    compareKey key x y = (compareKey key y x).swap := by
  by_cases hx : x = .null
  · by_cases hy : y = .null
    · rw [hx, hy]
      rfl
    · rw [hx, compareKey_null_left hy, compareKey_null_right hy]
      rfl
  · by_cases hy : y = .null
    · rw [hy, compareKey_null_left hx, compareKey_null_right hx]
      rfl
    · rw [compareKey_values hx hy, compareKey_values hy hx, Value.totalCompare_swap x y]
      split <;> simp

theorem compareKey_eq : compareKey key x y = .eq ↔ x.totalCompare y = .eq := by
  by_cases hx : x = .null
  · subst hx
    cases y <;> simp [compareKey, Value.isNull, Value.totalCompare, Value.asDouble?, Value.kindRank]
  · by_cases hy : y = .null
    · subst hy
      rw [compareKey_null_right hx]
      cases x <;> simp [Value.totalCompare, Value.asDouble?, Value.kindRank] at hx ⊢
    · rw [compareKey_values hx hy]
      split
      · rfl
      · exact ⟨Value.totalCompare_eq_symm, Value.totalCompare_eq_symm⟩

/-- Along rising values of a column, one key compares the outer two as the first pair that differs. -/
theorem compareKey_chain (h : Value.Unblurred [x, y, z]) (hxy : compareKey key x y ≠ .gt)
    (hyz : compareKey key y z ≠ .gt) :
    compareKey key x z = (compareKey key x y).then (compareKey key y z) := by
  by_cases hz : z = .null
  · have hy : y = .null := by
      by_contra hy
      exact hyz (hz ▸ compareKey_null_right hy)
    have hx : x = .null := by
      by_contra hx
      exact hxy (hy ▸ compareKey_null_right hx)
    rw [hx, hy, hz]
    rfl
  by_cases hy : y = .null
  · have hx : x = .null := by
      by_contra hx
      exact hxy (hy ▸ compareKey_null_right hx)
    rw [hx, hy, compareKey_null_left hz]
    rfl
  by_cases hx : x = .null
  · rw [hx, compareKey_null_left hz, compareKey_null_left hy]
    rfl
  rw [compareKey_values hx hy] at hxy ⊢
  rw [compareKey_values hy hz] at hyz ⊢
  rw [compareKey_values hx hz]
  cases hasc : key.ascending with
  | true =>
    simp only [hasc, if_true] at hxy hyz ⊢
    exact Value.totalCompare_chain h hxy hyz
  | false =>
    -- Downwards the chain is read from its other end.
    simp only [hasc, Bool.false_eq_true, if_false] at hxy hyz ⊢
    rw [Value.totalCompare_chain (h.mono (by simp)) hyz hxy]
    cases ho : z.totalCompare y <;> cases ho' : y.totalCompare x <;> simp_all

/-! ## Tuples of keys -/

theorem compareKeys_lt : compareKeys keys xs ys = .lt ↔ SortKey.Precedes keys xs ys := by
  unfold SortKey.Precedes
  induction keys generalizing xs ys with
  | nil => simp [compareKeys]
  | cons key keys ih =>
    cases xs with
    | nil => simp [compareKeys]
    | cons x xs =>
      cases ys with
      | nil => simp [compareKeys]
      | cons y ys =>
        rw [compareKeys, Ordering.then_eq_lt, compareKey_lt, compareKey_eq, ih]
        constructor
        · rintro (hbefore | ⟨htie, i, key', x', y', hkey, hx, hy, hbefore, hties⟩)
          · exact ⟨0, key, x, y, rfl, rfl, rfl, hbefore, nofun⟩
          · refine ⟨i + 1, key', x', y', hkey, hx, hy, hbefore, ?_⟩
            intro j hj u v hu hv
            cases j with
            | zero =>
              cases hu
              cases hv
              exact htie
            | succ j => exact hties j (Nat.lt_of_succ_lt_succ hj) u v hu hv
        · rintro ⟨i, key', x', y', hkey, hx, hy, hbefore, hties⟩
          cases i with
          | zero =>
            cases hkey
            cases hx
            cases hy
            exact .inl hbefore
          | succ i =>
            refine .inr ⟨hties 0 (Nat.succ_pos i) x y rfl rfl, i, key', x', y', hkey, hx, hy,
              hbefore, ?_⟩
            intro j hj u v hu hv
            exact hties (j + 1) (Nat.succ_lt_succ hj) u v hu hv

theorem compareKeys_swap (keys : List SortKey) (xs ys : List Value) :
    compareKeys keys xs ys = (compareKeys keys ys xs).swap := by
  induction keys generalizing xs ys with
  | nil => rfl
  | cons key keys ih =>
    cases xs with
    | nil => cases ys <;> rfl
    | cons x xs =>
      cases ys with
      | nil => rfl
      | cons y ys => rw [compareKeys, compareKeys, Ordering.swap_then, ← compareKey_swap, ← ih]

theorem compareKeys_eq (hx : xs.length = keys.length) (hy : ys.length = keys.length) :
    compareKeys keys xs ys = .eq ↔ Group.sameKey xs ys = true := by
  induction keys generalizing xs ys with
  | nil =>
    rw [List.length_eq_zero_iff.mp hx, List.length_eq_zero_iff.mp hy]
    simp [compareKeys, Group.sameKey]
  | cons key keys ih =>
    obtain ⟨x, xs, rfl⟩ := List.exists_cons_of_length_eq_add_one hx
    obtain ⟨y, ys, rfl⟩ := List.exists_cons_of_length_eq_add_one hy
    rw [compareKeys, Ordering.then_eq_eq, compareKey_eq,
      ih (Nat.succ.inj hx) (Nat.succ.inj hy), Group.sameKey]
    simp

/-- Two comparisons that each compare the outer two as the first pair that differs do so together. -/
private theorem then_chain {o₁ o₂ o₃ p₁ p₂ p₃ : Ordering}
    (hhead : o₁ ≠ .gt → o₂ ≠ .gt → o₃ = o₁.then o₂) (htail : p₁ ≠ .gt → p₂ ≠ .gt → p₃ = p₁.then p₂)
    (h₁ : o₁.then p₁ ≠ .gt) (h₂ : o₂.then p₂ ≠ .gt) :
    o₃.then p₃ = (o₁.then p₁).then (o₂.then p₂) := by
  have ho₁ : o₁ ≠ .gt := fun h => h₁ (by rw [h, Ordering.gt_then])
  have ho₂ : o₂ ≠ .gt := fun h => h₂ (by rw [h, Ordering.gt_then])
  rw [hhead ho₁ ho₂]
  cases o₁ with
  | gt => exact absurd rfl ho₁
  | lt => rfl
  | eq =>
    cases o₂ with
    | gt => exact absurd rfl ho₂
    | lt => cases p₁ <;> first | rfl | exact absurd rfl h₁
    | eq => exact htail h₁ h₂

private theorem compareKeys_chain (hx : xs.length = keys.length) (hy : ys.length = keys.length)
    (hz : zs.length = keys.length)
    (h : ∀ (i : Nat) (x y z : Value), xs[i]? = some x → ys[i]? = some y → zs[i]? = some z →
      Value.Unblurred [x, y, z])
    (hxy : compareKeys keys xs ys ≠ .gt) (hyz : compareKeys keys ys zs ≠ .gt) :
    compareKeys keys xs zs = (compareKeys keys xs ys).then (compareKeys keys ys zs) := by
  induction keys generalizing xs ys zs with
  | nil => rfl
  | cons key keys ih =>
    obtain ⟨x, xs, rfl⟩ := List.exists_cons_of_length_eq_add_one hx
    obtain ⟨y, ys, rfl⟩ := List.exists_cons_of_length_eq_add_one hy
    obtain ⟨z, zs, rfl⟩ := List.exists_cons_of_length_eq_add_one hz
    have hhead : compareKey key x y ≠ .gt → compareKey key y z ≠ .gt → _ :=
      compareKey_chain (h 0 x y z rfl rfl rfl)
    have htail := ih (Nat.succ.inj hx) (Nat.succ.inj hy) (Nat.succ.inj hz)
      fun i x' y' z' hx' hy' hz' => h (i + 1) x' y' z' hx' hy' hz'
    exact then_chain hhead htail hxy hyz

theorem orders_before {rows : List KeyedRow} (hlen : ∀ k ∈ rows, k.keys.length = keys.length)
    (hcolumns : ∀ i : Nat, Value.Unblurred (rows.filterMap (·.keys[i]?))) :
    StableSort.Orders (before keys) rows := by
  refine .of_compare (fun a b : KeyedRow => compareKeys_swap keys a.keys b.keys) ?_
  intro a ha b hb c hc hab hbc
  have hplace : ∀ (i : Nat) (x y z : Value), a.keys[i]? = some x → b.keys[i]? = some y →
      c.keys[i]? = some z → Value.Unblurred [x, y, z] := by
    intro i x y z hx hy hz
    refine (hcolumns i).mono ?_
    have hmem : ∀ {k : KeyedRow} {v : Value}, k ∈ rows → k.keys[i]? = some v →
        v ∈ rows.filterMap (·.keys[i]?) := fun hk hv => List.mem_filterMap.mpr ⟨_, hk, hv⟩
    simp [hmem ha hx, hmem hb hy, hmem hc hz]
  rw [compareKeys_chain (hlen a ha) (hlen b hb) (hlen c hc) hplace hab hbc]
  cases ho : compareKeys keys a.keys b.keys <;> simp_all

theorem tied_before {a b : KeyedRow} (ha : a.keys.length = keys.length)
    (hb : b.keys.length = keys.length) :
    StableSort.tied (before keys) a b = Group.sameKey a.keys b.keys := by
  rw [Bool.eq_iff_iff, ← compareKeys_eq ha hb, StableSort.tied, before, before,
    compareKeys_swap keys b.keys]
  cases compareKeys keys a.keys b.keys <;> simp

/-! ## Rows with their keys -/

theorem ofView_eq_ok {view : RowView} {step : Step} {k : KeyedRow} :
    ofView keys view step = .ok k ↔
      view.evalAll (keys.map (·.expr)) = .ok k.keys ∧ view.copy = .ok k.row ∧ k.step = step := by
  constructor
  · intro h
    obtain ⟨values, hvalues, h⟩ := bind_eq_ok.mp h
    obtain ⟨row, hrow, h⟩ := bind_eq_ok.mp h
    cases h
    exact ⟨hvalues, hrow, rfl⟩
  · rintro ⟨hvalues, hrow, rfl⟩
    rw [ofView, hvalues, hrow]
    rfl

theorem evalAll_total {view : RowView} (h : ∀ key ∈ keys, ∃ v, view.eval key.expr = .ok v) :
    ∃ values, view.evalAll (keys.map (·.expr)) = .ok values :=
  mapM_total fun e he => by
    obtain ⟨key, hkey, rfl⟩ := List.mem_map.mp he
    exact h key hkey

variable {rows : List Operator.Listed} {child : List KeyedRow}

theorem map_ofViews (h : rows.mapM (fun r => ofView keys r.1 r.2) = .ok child) :
    child.map (fun k => (Except.ok k.keys, Except.ok k.row, k.step)) =
      rows.map fun r => (r.1.evalAll (keys.map (·.expr)), r.1.copy, r.2) := by
  induction rows generalizing child with
  | nil =>
    cases h
    rfl
  | cons r rows ih =>
    obtain ⟨k, rest, hk, hrest, rfl⟩ := mapM_eq_ok_cons h
    obtain ⟨hkeys, hrow, hstep⟩ := ofView_eq_ok.mp hk
    rw [List.map_cons, List.map_cons, ih hrest, hkeys, hrow, hstep]

/-- If the keys have values, making the rows fails only where a row cannot be copied. -/
theorem ofViews_error (hkeys : ∀ r ∈ rows, ∀ key ∈ keys, ∃ v, r.1.eval key.expr = .ok v)
    {e : ExecError} (h : rows.mapM (fun r => r.1.copy) = .error e) :
    rows.mapM (fun r => ofView keys r.1 r.2) = .error e := by
  induction rows with
  | nil => cases h
  | cons r rows ih =>
    obtain ⟨hr, hrows⟩ := List.forall_mem_cons.mp hkeys
    obtain ⟨values, hvalues⟩ := evalAll_total hr
    rw [List.mapM_cons] at h ⊢
    rw [ofView, hvalues]
    cases hcopy : r.1.copy with
    | error e' =>
      rw [hcopy] at h
      cases h
      rfl
    | ok row =>
      rw [hcopy] at h
      cases hrest : rows.mapM (fun r => r.1.copy) with
      | ok copies =>
        rw [hrest] at h
        cases h
      | error e' =>
        rw [hrest] at h
        cases h
        simp only [bind, Except.bind, pure, Except.pure, ih hrows hrest]

theorem ofViews_total (hkeys : ∀ r ∈ rows, ∀ key ∈ keys, ∃ v, r.1.eval key.expr = .ok v)
    (hcopies : ∀ r ∈ rows, ∃ row, r.1.copy = .ok row) :
    ∃ child, rows.mapM (fun r => ofView keys r.1 r.2) = .ok child :=
  mapM_total fun r hr => by
    obtain ⟨values, hvalues⟩ := evalAll_total (hkeys r hr)
    obtain ⟨row, hrow⟩ := hcopies r hr
    exact ⟨⟨values, row, r.2⟩, ofView_eq_ok.mpr ⟨hvalues, hrow, rfl⟩⟩

theorem unblurred_keys (h : rows.mapM (fun r => ofView keys r.1 r.2) = .ok child)
    (hcolumns : ∀ key ∈ keys, Value.Unblurred (Operator.column key.expr rows)) (i : Nat) :
    Value.Unblurred (child.filterMap (·.keys[i]?)) := by
  cases hkey : keys[i]? with
  | none =>
    have hnone : child.filterMap (·.keys[i]?) = [] := by
      rw [List.filterMap_eq_nil_iff]
      intro k hk
      obtain ⟨r, _, hr⟩ := mem_of_mapM h hk
      have hlen := length_of_mapM (ofView_eq_ok.mp hr).1
      rw [List.length_map] at hlen
      rw [List.getElem?_eq_none_iff] at hkey ⊢
      omega
    rw [hnone]
    exact nofun
  | some key =>
    refine (hcolumns key (List.mem_of_getElem? hkey)).mono ?_
    intro v hv
    obtain ⟨k, hk, hv⟩ := List.mem_filterMap.mp hv
    obtain ⟨r, hmem, hr⟩ := mem_of_mapM h hk
    obtain ⟨v', hv', heval⟩ := getElem?_of_mapM (ofView_eq_ok.mp hr).1
      (i := i) (x := key.expr) (by simp [hkey])
    cases hv.symm.trans hv'
    exact Operator.mem_column hmem heval

theorem orders_views (h : rows.mapM (fun r => ofView keys r.1 r.2) = .ok child)
    (hcolumns : ∀ key ∈ keys, Value.Unblurred (Operator.column key.expr rows)) :
    (∀ k ∈ child, k.keys.length = keys.length) ∧ StableSort.Orders (before keys) child := by
  have hlen : ∀ k ∈ child, k.keys.length = keys.length := by
    intro k hk
    obtain ⟨r, _, hr⟩ := mem_of_mapM h hk
    rw [length_of_mapM (ofView_eq_ok.mp hr).1, List.length_map]
  exact ⟨hlen, orders_before hlen (unblurred_keys h hcolumns)⟩

-- Both integers equal the double, and not each other. With them a column is blurred, and a sort may panic.
example : StableSort.sort (fun a b : Value => a.totalCompare b == .lt)
    (List.replicate 7 [.integer 9007199254740992, .float ⟨0x4340000000000000⟩,
      .integer 9007199254740993]).flatten = none := by decide +kernel

end KeyedRow

namespace Operator

variable {keys : List SortKey} {input input' : Operator} {buffer : Buffer} {t : TxHandle}
  {db db' : Database} {rows : List Listed} {child : List KeyedRow} {n : Nat}

private theorem foldlM_collectKeyed (keys : List SortKey) (rows : List Listed) :
    rows.foldlM (fun acc r => collectKeyed keys {} acc r.1 r.2) #[] =
      (rows.mapM fun r => KeyedRow.ofView keys r.1 r.2).map List.toArray := by
  have hpush := foldlM_push_eq (fun r : Listed => KeyedRow.ofView keys r.1 r.2) rows #[]
  simp only [Array.empty_append] at hpush
  exact hpush

/-- A sort whose rows have their keys, and are in order by them, yields them in sorted order. -/
private theorem executes_sorted (hn : n + 1 = (sort keys input buffer).steps db.catalog)
    (h : Drains n t input db rows input' db')
    (hchild : rows.mapM (fun r => KeyedRow.ofView keys r.1 r.2) = .ok child) {out : List KeyedRow}
    (hout : StableSort.sort (KeyedRow.before keys) child = some out) :
    (sort keys input buffer).Executes t db (out.map fun k => (k.step, .ok k.row)) (.ok ()) := by
  have hsorted : KeyedRow.sorted keys child = .ok (out.map fun k => (k.row, k.step)).toArray :=
    KeyedRow.sorted_eq_ok.mpr ⟨out, hout, rfl⟩
  have hopen : (sort keys input buffer).openUnder t db =
      .ok () (sort keys input' { rows := (out.map fun k => (k.row, k.step)).toArray }) db' := by
    rw [openUnder, ← hn, openIn]
    have hfold := foldlM_collectKeyed keys rows
    rw [hchild, Except.map] at hfold
    refine (afterReading_ok h hfold _ _).trans ?_
    simp only [hsorted]
  have hwhole : ∀ r ∈ (out.map fun k => (k.row, k.step)).toArray.toList,
      r.1.names.length = r.1.values.length ∧ r.2 ≠ .done := by
    intro r hr
    obtain ⟨k, hk, rfl⟩ := List.mem_map.mp ((KeyedRow.sorted_perm hsorted).mem_iff.mp hr)
    obtain ⟨listed, hlisted, hview⟩ := mem_of_mapM hchild hk
    obtain ⟨-, hcopy, hstep⟩ := KeyedRow.ofView_eq_ok.mp hview
    obtain ⟨-, _, _, _, hlists⟩ := h
    exact ⟨RowView.length_of_copy hcopy, hstep ▸ hlists.step_ne_done listed hlisted⟩
  have hnext : ∀ b db, (sort keys input' b).next .empty db = replay b (sort keys input') db :=
    fun b db => next_of_nextIn fun n => by rw [nextIn]
  have hanswers := answers_replay hnext (fun _ => rfl) hwhole
    { rows := (out.map fun k => (k.row, k.step)).toArray } rfl db'
  rw [List.drop_zero, List.map_map] at hanswers
  exact .opened hopen hanswers

/-- A sort yields the rows of its input, whatever the input is, in the stable lexicographic order of
their keys: the same rows with their cells, ids and steps, none before one that precedes it, and
those of equal keys as they came. A row that cannot be copied fails the sort. -/
theorem sort_executes (hn : n + 1 = (sort keys input buffer).steps db.catalog)
    (h : Drains n t input db rows input' db')
    (hkeys : ∀ r ∈ rows, ∀ key ∈ keys, ∃ v, r.1.eval key.expr = .ok v)
    (hunmixed : ∀ key ∈ keys, Value.Unmixed (column key.expr rows)) :
    (∀ e, rows.mapM (fun r => r.1.copy) = .error e →
      (sort keys input buffer).Executes t db [] (.error e)) ∧
    ((∀ r ∈ rows, ∃ row, r.1.copy = .ok row) → ∃ child out : List KeyedRow,
      child.map (fun k => (Except.ok k.keys, Except.ok k.row, k.step)) =
        rows.map (fun r => (r.1.evalAll (keys.map (·.expr)), r.1.copy, r.2)) ∧
      (sort keys input buffer).Executes t db (out.map fun k => (k.step, .ok k.row)) (.ok ()) ∧
      out.Perm child ∧
      out.Pairwise (fun a b => ¬SortKey.Precedes keys b.keys a.keys) ∧
      ∀ a ∈ child, out.filter (fun b => Group.sameKey a.keys b.keys) =
        child.filter fun b => Group.sameKey a.keys b.keys) := by
  constructor
  · intro e he
    have hfold := foldlM_collectKeyed keys rows
    rw [KeyedRow.ofViews_error hkeys he, Except.map] at hfold
    have hopen : ∃ mid between, (sort keys input buffer).openUnder t db = .fail e mid between := by
      rw [openUnder, ← hn, openIn]
      exact afterReading_error h hfold _ _
    obtain ⟨mid, between, hrun⟩ := hopen
    exact .refused hrun
  · intro hcopies
    obtain ⟨child, hchild⟩ := KeyedRow.ofViews_total hkeys hcopies
    obtain ⟨hlen, horders⟩ :=
      KeyedRow.orders_views hchild fun key hkey => (hunmixed key hkey).unblurred
    obtain ⟨out, hout, harranged⟩ := (StableSort.sort_sorts _ child).exists_some horders
    refine ⟨child, out, KeyedRow.map_ofViews hchild, executes_sorted hn h hchild hout,
      harranged.perm, ?_, ?_⟩
    · refine (harranged.rises horders).imp ?_
      intro a b hba hprecedes
      rw [KeyedRow.before, KeyedRow.compareKeys_lt.mpr hprecedes] at hba
      cases hba
    · intro a ha
      have hkeeps := harranged.keeps horders a ha
      have htied : ∀ b ∈ child, StableSort.tied (KeyedRow.before keys) a b =
          Group.sameKey a.keys b.keys := fun b hb => KeyedRow.tied_before (hlen a ha) (hlen b hb)
      rwa [List.filter_congr htied,
        List.filter_congr fun b hb => htied b (harranged.mem_iff.mp hb)] at hkeeps

def unsorted : StringList where
  buffer := { rows := #[({ names := [.qualified "t" "n"], values := [.integer 2] }, .row),
    ({ names := [.qualified "t" "n"], values := [.null], rid := some ⟨4⟩ }, .contested),
    ({ names := [.qualified "t" "n"], values := [.integer 7] }, .row)] }

theorem sort_executes_unsorted :
    ∃ child out : List KeyedRow,
      child.map (fun k => (Except.ok k.keys, Except.ok k.row, k.step)) =
        unsorted.buffer.rows.toList.map
          (fun r => ((RowView.owned r.1).evalAll [.field ⟨"t", "n", .integer⟩],
            (RowView.owned r.1).copy, r.2)) ∧
      (sort [⟨.field ⟨"t", "n", .integer⟩, false⟩] (.stringList unsorted) {}).Executes ⟨0⟩ {}
        (out.map fun k => (k.step, .ok k.row)) (.ok ()) ∧
      out.Perm child ∧
      out.Pairwise (fun a b =>
        ¬SortKey.Precedes [⟨.field ⟨"t", "n", .integer⟩, false⟩] b.keys a.keys) ∧
      ∀ a ∈ child, out.filter (fun b => Group.sameKey a.keys b.keys) =
        child.filter fun b => Group.sameKey a.keys b.keys := by
  have hn : 0x4000000000000009 + 1 =
      (sort [⟨.field ⟨"t", "n", .integer⟩, false⟩] (.stringList unsorted) {}).steps
        ({} : Database).catalog := rfl
  have hsteps : ∀ r ∈ unsorted.buffer.rows.toList, r.2 ≠ .done := by decide
  obtain ⟨input', hdrains⟩ := drains_stringList (n := 0x4000000000000009) unsorted hsteps
    (by decide) ⟨0⟩ {}
  have hkeys : ∀ r ∈ unsorted.buffer.rows.toList.map (fun r => (RowView.owned r.1, r.2)),
      ∀ key ∈ [(⟨.field ⟨"t", "n", .integer⟩, false⟩ : SortKey)],
        ∃ v, r.1.eval key.expr = .ok v := by
    simp only [unsorted, List.map_cons, List.map_nil, List.forall_mem_cons]
    exact ⟨⟨⟨_, rfl⟩, nofun⟩, ⟨⟨_, rfl⟩, nofun⟩, ⟨⟨_, rfl⟩, nofun⟩, nofun⟩
  have hunmixed : ∀ key ∈ [(⟨.field ⟨"t", "n", .integer⟩, false⟩ : SortKey)],
      Value.Unmixed (column key.expr
        (unsorted.buffer.rows.toList.map fun r => (.owned r.1, r.2))) := by
    simp only [List.forall_mem_cons]
    refine ⟨?_, nofun⟩
    have hcolumn : column (.field ⟨"t", "n", .integer⟩)
        (unsorted.buffer.rows.toList.map fun r => (.owned r.1, r.2)) =
          [.integer 2, .null, .integer 7] := rfl
    rw [hcolumn]
    intro n x _ hx
    simp at hx
  have hcopies : ∀ r ∈ unsorted.buffer.rows.toList.map (fun r => (RowView.owned r.1, r.2)),
      ∃ row, r.1.copy = .ok row := by
    simp only [unsorted, List.map_cons, List.map_nil, List.forall_mem_cons]
    exact ⟨⟨_, rfl⟩, ⟨_, rfl⟩, ⟨_, rfl⟩, nofun⟩
  obtain ⟨child, out, hchild, hsorted⟩ := (sort_executes hn hdrains hkeys hunmixed).2 hcopies
  refine ⟨child, out, ?_, hsorted⟩
  rwa [List.map_map] at hchild

end Operator

/-- Over a query as planning makes it, which comes to its end, a sort yields the rows as an insertion sort
arranges them, if no column of keys is blurred. -/
theorem QueryTree.executes_sort {keys : List SortKey} {q : QueryTree} {t : TxHandle} {db : Database}
    {s : Stream} {child : List KeyedRow} (hq : q.Fresh) (h : db.Active t)
    (hs : q.stream (db.reader t) = .ok s) (hlast : s.last = .ok ())
    (hchild : s.listed.mapM (fun r => KeyedRow.ofView keys r.1 r.2) = .ok child)
    (hunblurred : ∀ key ∈ keys, Value.Unblurred (Operator.column key.expr s.listed)) :
    (sort keys q).operator.Executes t db
      ((StableSort.insertionSort (KeyedRow.before keys) child).map fun k => (k.step, .ok k.row))
      (.ok ()) := by
  obtain ⟨n, op', db', hn, hdrains⟩ :=
    drains_stream hq h hs hlast (sort keys q).operator rfl
  exact Operator.executes_sorted hn hdrains hchild
    (StableSort.sort_eq_insertionSort (KeyedRow.orders_views hchild hunblurred).2)

end SnapshotSql
