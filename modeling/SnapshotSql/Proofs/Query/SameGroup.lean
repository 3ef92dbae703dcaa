import SnapshotSql.Proofs.Query.Conjuncts
import SnapshotSql.Proofs.Query.Grouped
import SnapshotSql.Proofs.Value.Comparison
import Mathlib.Data.List.Forall2
/-! # Rows of one group -/

namespace SnapshotSql

namespace Expr

variable {find : Lookup} {l r : Expr} {ls rs : List Expr} {x y : Value} {xs ys : List Value}

/-- The condition that the keys on the left are equal to those on the right. -/
def keysEqual (ls rs : List Expr) : Expr := .junction .all (List.zipWith (.comparison .eq) ls rs)

theorem holds_equal (hl : l.eval find = .ok x) (hr : r.eval find = .ok y) :
    (comparison .eq l r).holds find = .ok true ↔ x.satisfies .eq y = true := by
  have heval : (comparison .eq l r).eval find = .ok (.boolean (x.satisfies .eq y)) := by
    rw [eval, hl, hr]
    rfl
  rw [holds, heval]
  exact ⟨Except.ok.inj, congrArg Except.ok⟩

theorem holds_keysEqual (hls : ls.mapM (·.eval find) = .ok xs) (hrs : rs.mapM (·.eval find) = .ok ys)
    (hlength : xs.length = ys.length) :
    (keysEqual ls rs).holds find = .ok true ↔
      List.Forall₂ (fun x y => x.satisfies .eq y = true) xs ys := by
  rw [keysEqual, holds_all]
  induction ls generalizing rs xs ys with
  | nil =>
    cases hls
    cases List.length_eq_zero_iff.mp hlength.symm
    simp
  | cons l ls ih =>
    obtain ⟨x, xs, hl, hrest, rfl⟩ := mapM_eq_ok_cons hls
    cases rs with
    | nil =>
      cases hrs
      cases hlength
    | cons r rs =>
      obtain ⟨y, ys, hr, hrest', rfl⟩ := mapM_eq_ok_cons hrs
      rw [List.zipWith_cons_cons, List.forall_mem_cons, List.forall₂_cons, holds_equal hl hr,
        ih hrest hrest' (Nat.succ.inj hlength)]

end Expr

namespace Group

variable {groupBy : List Expr} {rows : List Operator.Listed} {a b : Operator.Listed} {xs ys : List Value}

def Together (groupBy : List Expr) (rows : List Operator.Listed) (a b : Operator.Listed) : Prop :=
  ∃ p ∈ parts groupBy rows, a ∈ p.members ∧ b ∈ p.members

/-- The values of the keys compare in a condition, one by one. -/
def Comparable (xs ys : List Value) : Prop := List.Forall₂ (fun x y => ∃ o, x.compare? y = some o) xs ys

theorem together_iff_alike (h : Classes.Classifies (alike groupBy) rows) (ha : a ∈ rows) (hb : b ∈ rows) :
    Together groupBy rows a b ↔ alike groupBy a b = true := by
  constructor
  · rintro ⟨p, hp, hamem, hbmem⟩
    obtain ⟨f, hf, hkey⟩ := exists_key hp
    have hmembers : ∀ r ∈ p.members, alike groupBy f r = true := by
      intro r hr
      rw [alike, ← hkey]
      exact sameKey_of_mem_members p hp r hr
    have hfa := hmembers a hamem
    have hfb := hmembers b hbmem
    exact h.trans a ha f hf b hb (h.symm f hf a ha hfa) hfb
  · intro hab
    obtain ⟨p, hp, hamem⟩ : ∃ p ∈ parts groupBy rows, a ∈ p.members := exists_part ha
    refine ⟨p, hp, hamem, ?_⟩
    rw [parts_eq_classes h] at hp
    obtain ⟨f, hf, rfl⟩ := List.mem_map.mp hp
    have hfa : alike groupBy f a = true := (List.mem_filter.mp hamem).2
    exact List.mem_filter.mpr ⟨hb, h.trans f (Classes.mem_of_mem_firsts hf) a ha b hb hfa hab⟩

/-- Keys that compare in a condition are equal for grouping if they are in the condition and there are no
zeros to tell apart. -/
theorem sameKey_iff_satisfies (h : Comparable xs ys) :
    sameKey xs ys = true ↔ List.Forall₂ (fun x y => x.satisfies .eq y = true) xs ys ∧
      List.Forall₂ (fun x y => ¬Value.ZerosApart x y) xs ys := by
  unfold Comparable at h
  induction h with
  | nil => simp [sameKey]
  | cons hxy _ ih =>
    obtain ⟨o, ho⟩ := hxy
    rw [sameKey, Bool.and_eq_true, beq_iff_eq, Value.totalCompare_eq_iff ho, ih, List.forall₂_cons,
      List.forall₂_cons, and_and_and_comm]

end Group

namespace Operator

variable {groupBy : List Expr} {calls : List AggregateCall} {input input' : Operator}
  {buffer : Buffer} {t : TxHandle} {db db' : Database} {rows : List Listed} {n : Nat}

/-- What compares in a condition compares in the same way for sorting and grouping, but for two zeros of
different signs, which are equal in a condition and of which the one with the sign comes first otherwise. An
aggregation yields a row for each group of its rows, or fails as a key or a call does. Two rows whose keys
compare in a condition are in one group if and only if the condition that their keys are equal holds and no
two of them are zeros of different signs. -/
theorem groups_compare (hn : n + 1 = (aggregate groupBy calls input buffer).steps db.catalog)
    (h : Drains n t input db rows input' db') :
    (∀ (x y : Value) (o : Ordering), x.compare? y = some o →
      (¬Value.ZerosApart x y → x.totalCompare y = o) ∧
      (Value.ZeroBelow x y → o = .eq ∧ x.totalCompare y = .lt) ∧
      (Value.ZeroBelow y x → o = .eq ∧ x.totalCompare y = .gt)) ∧
    ((∃ outs, (∀ r ∈ rows, r.1.evalAll groupBy = .ok (Group.keyOf groupBy r)) ∧
        Group.gathered groupBy calls rows = .ok outs ∧
        (aggregate groupBy calls input buffer).Executes t db (outs.map fun r => (r.2, .ok r.1)) (.ok ())) ∨
      ∃ e, ((∃ r ∈ rows, r.1.evalAll groupBy = .error e) ∨
          ∃ p ∈ Group.wholeParts groupBy rows, ∃ call ∈ calls, call.outcome p.members = .error e) ∧
        (aggregate groupBy calls input buffer).Executes t db [] (.error e)) ∧
    ((∀ e ∈ groupBy, ∀ r ∈ rows, ∃ v, r.1.eval e = .ok v) →
      (∀ e ∈ groupBy, Value.Unblurred (column e rows)) →
      ∀ a ∈ rows, ∀ b ∈ rows, Group.Comparable (Group.keyOf groupBy a) (Group.keyOf groupBy b) →
      ∀ (find : Lookup) (ls rs : List Expr), ls.mapM (·.eval find) = .ok (Group.keyOf groupBy a) →
        rs.mapM (·.eval find) = .ok (Group.keyOf groupBy b) →
        (Group.Together groupBy rows a b ↔ (Expr.keysEqual ls rs).holds find = .ok true ∧
          List.Forall₂ (fun x y => ¬Value.ZerosApart x y) (Group.keyOf groupBy a)
            (Group.keyOf groupBy b))) := by
  refine ⟨fun x y o ho => ⟨Value.totalCompare_of_compare ho, fun hbelow => ?_, fun hbelow => ?_⟩,
    executes_gathered hn h, ?_⟩
  · exact ⟨Option.some.inj (ho.symm.trans hbelow.compares.1), hbelow.compares.2⟩
  · exact ⟨Option.some.inj (ho.symm.trans hbelow.compares_symm.1), hbelow.compares_symm.2⟩
  · intro hkeys hcolumns a ha b hb hcomparable find ls rs hls hrs
    rw [Group.together_iff_alike (Group.classifies_of_unblurred hkeys hcolumns) ha hb, Group.alike,
      Group.sameKey_iff_satisfies hcomparable, Expr.holds_keysEqual hls hrs hcomparable.length_eq]

def keyed (keys : List Value) : StringList where
  buffer := { rows := (keys.map fun key => (pair key .null, .row)).toArray }

/-- What a list of rows with the given keys yields. -/
def keyedRows (keys : List Value) : List Listed := keys.map fun key => (.owned (pair key .null), .row)

def keyColumn : List Expr := [.field ⟨"t", "k", .float⟩]

def mixedKeys : List Value := [.integer 1, .float (.ofInt 1), .float .zero, .float .negativeZero]

theorem unblurred_mixedKeys : Value.Unblurred mixedKeys := by
  rintro a ha b - c hc ⟨m, n, x, rfl, -, rfl, hne, -⟩
  simp only [mixedKeys, List.mem_cons, List.not_mem_nil, or_false, reduceCtorEq, Value.integer.injEq] at ha hc
  exact hne (ha.trans hc.symm)

theorem groups_compare_mixed :
    (∃ input', Drains 0x400000000000000B ⟨0⟩ (.stringList (keyed mixedKeys)) {} (keyedRows mixedKeys)
      input' {}) ∧
    Group.Together keyColumn (keyedRows mixedKeys) (.owned (pair (.integer 1) .null), .row)
      (.owned (pair (.float (.ofInt 1)) .null), .row) ∧
    ¬Group.Together keyColumn (keyedRows mixedKeys) (.owned (pair (.float .zero) .null), .row)
      (.owned (pair (.float .negativeZero) .null), .row) := by
  have hsteps : ∀ r ∈ (keyed mixedKeys).buffer.rows.toList, r.2 ≠ .done := by decide
  obtain ⟨input', hdrains⟩ := drains_stringList (n := 0x400000000000000B) (keyed mixedKeys) hsteps
    (by decide) ⟨0⟩ {}
  have hn : 0x400000000000000B + 1 =
      (aggregate keyColumn [] (.stringList (keyed mixedKeys)) {}).steps ({} : Database).catalog := rfl
  obtain ⟨-, -, htogether⟩ := groups_compare hn hdrains
  have hrows : (keyed mixedKeys).buffer.rows.toList.map (fun r => ((.owned r.1, r.2) : Listed)) =
    keyedRows mixedKeys := rfl
  rw [hrows] at hdrains htogether
  have hkeys : ∀ e ∈ keyColumn, ∀ r ∈ keyedRows mixedKeys, ∃ v, r.1.eval e = .ok v := by
    intro e he r hr
    cases List.mem_singleton.mp he
    obtain ⟨key, -, rfl⟩ := List.mem_map.mp hr
    exact ⟨key, rfl⟩
  have hcolumns : ∀ e ∈ keyColumn, Value.Unblurred (column e (keyedRows mixedKeys)) := by
    intro e he
    cases List.mem_singleton.mp he
    exact unblurred_mixedKeys
  have hmem : ∀ key ∈ mixedKeys, ((.owned (pair key .null), .row) : Listed) ∈ keyedRows mixedKeys :=
    fun key hkey => List.mem_map_of_mem hkey
  refine ⟨⟨input', hdrains⟩, ?_, ?_⟩
  · refine (htogether hkeys hcolumns _ (hmem _ (by simp [mixedKeys])) _ (hmem _ (by simp [mixedKeys]))
      (.cons ⟨.eq, by decide +kernel⟩ .nil) (fun _ => .ok none) [.literal (.integer 1)]
      [.literal (.float (.ofInt 1))] rfl rfl).mpr ⟨rfl, .cons ?_ .nil⟩
    rintro (⟨⟨⟩, -⟩ | ⟨hone, -⟩)
    exact absurd hone (by decide +kernel)
  · intro hzeros
    obtain ⟨-, hapart⟩ := (htogether hkeys hcolumns _ (hmem _ (by simp [mixedKeys])) _
      (hmem _ (by simp [mixedKeys])) (.cons ⟨.eq, by decide +kernel⟩ .nil) (fun _ => .ok none)
      [.literal (.float .zero)] [.literal (.float .negativeZero)] rfl rfl).mp hzeros
    cases hapart with
    | cons hzero _ => exact hzero (.inr ⟨rfl, .inr rfl⟩)

/-- The two zeros are equal in a condition, and grouping keeps them apart. Two integers past 2^53 are not
equal in a condition, and they come into the group of a double that both of them round to. -/
theorem zeros_apart :
    ((Value.float .zero).compare? (.float .negativeZero) = some .eq ∧
      (Value.float .zero).totalCompare (.float .negativeZero) = .gt) ∧
    ((Expr.keysEqual [.literal (.float .zero)] [.literal (.float .negativeZero)]).holds
        (fun _ => .ok none) = .ok true ∧
      (Group.parts keyColumn (keyedRows [.float .zero, .float .negativeZero])).map (·.members.length) =
        [1, 1]) ∧
    ((Expr.keysEqual [.literal (.integer 9007199254740993)] [.literal (.integer 9007199254740992)]).holds
        (fun _ => .ok none) = .ok false ∧
      (Group.parts keyColumn (keyedRows [.float (.ofInt 9007199254740992), .integer 9007199254740993,
        .integer 9007199254740992])).map (·.members.length) = [3]) := by
  exact ⟨by decide +kernel, ⟨rfl, by decide +kernel⟩, rfl, by decide +kernel⟩

end Operator

end SnapshotSql
