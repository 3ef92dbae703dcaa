import SnapshotSql.Proofs.Classes
import SnapshotSql.Proofs.Query.Gathered
/-! # Grouped rows -/

namespace SnapshotSql

open Classes (Classifies firsts classOf)

namespace Group

def alike (groupBy : List Expr) (a b : Operator.Listed) : Bool :=
  sameKey (keyOf groupBy a) (keyOf groupBy b)

/-- The row for some rows under a key: the key, then what each call means for the rows. It is contested
if one of them is. -/
def outputOf (groupBy : List Expr) (calls : List AggregateCall) (key : List Value)
    (members : List Operator.Listed) : Row × Step :=
  ({ names := cellNames groupBy calls, values := key ++ calls.map (·.cell members) },
    if members.any (·.2 = .contested) then .contested else .row)

/-- What grouping means: a row for each class of rows with equal keys, where the first of them stands.
Without keys there is one row even if there were none. -/
def grouped (groupBy : List Expr) (calls : List AggregateCall) (rows : List Operator.Listed) :
    List (Row × Step) :=
  if rows.isEmpty && groupBy.isEmpty then [outputOf groupBy calls [] []]
  else (firsts (alike groupBy) rows).map fun f =>
    outputOf groupBy calls (keyOf groupBy f) (classOf (alike groupBy) rows f)

/-- Keys have values on every row and mix no integers with doubles, and every call can be computed on
every class. -/
structure Groupable (groupBy : List Expr) (calls : List AggregateCall)
    (rows : List Operator.Listed) : Prop where
  keys : ∀ e ∈ groupBy, ∀ r ∈ rows, ∃ v, r.1.eval e = .ok v
  unmixed : ∀ e ∈ groupBy, Value.Unmixed (Operator.column e rows)
  calls : ∀ f ∈ rows, ∀ call ∈ calls, call.Computable (classOf (alike groupBy) rows f)

variable {groupBy : List Expr} {calls : List AggregateCall} {rows : List Operator.Listed}
  {f r : Operator.Listed} {xs ys zs : List Value}

theorem sameKey_trans
    (h : ∀ (i : Nat) (x y z : Value), xs[i]? = some x → ys[i]? = some y → zs[i]? = some z →
      ¬Value.Blurs x y z)
    (hxy : sameKey xs ys = true) (hyz : sameKey ys zs = true) : sameKey xs zs = true := by
  induction xs generalizing ys zs with
  | nil =>
    cases ys with
    | nil => exact hyz
    | cons => cases hxy
  | cons x xs ih =>
    cases ys with
    | nil => cases hxy
    | cons y ys =>
      cases zs with
      | nil => cases hyz
      | cons z zs =>
        simp only [sameKey, Bool.and_eq_true, beq_iff_eq] at hxy hyz ⊢
        exact ⟨Value.totalCompare_eq_trans (h 0 x y z rfl rfl rfl) hxy.1 hyz.1,
          ih (fun i x' y' z' hx' hy' hz' => h (i + 1) x' y' z' hx' hy' hz') hxy.2 hyz.2⟩

theorem mem_column_of_keyOf (hkeys : ∀ e ∈ groupBy, ∃ v, r.1.eval e = .ok v) (hr : r ∈ rows)
    {i : Nat} {x : Value} (hx : (keyOf groupBy r)[i]? = some x) :
    ∃ e, groupBy[i]? = some e ∧ r.1.eval e = .ok x ∧ x ∈ Operator.column e rows := by
  have hkey := evalAll_keyOf hkeys
  have hi : i < groupBy.length := by
    rw [← length_of_mapM hkey]
    exact (List.getElem?_eq_some_iff.mp hx).1
  have he : groupBy[i]? = some groupBy[i] := List.getElem?_eq_getElem hi
  obtain ⟨x', hx', heval⟩ := getElem?_of_mapM hkey he
  cases hx.symm.trans hx'
  exact ⟨_, he, heval, Operator.mem_column hr heval⟩

/-- Rows fall into classes by their keys if no key column has blurred integers. -/
theorem classifies_of_unblurred (hkeys : ∀ e ∈ groupBy, ∀ r ∈ rows, ∃ v, r.1.eval e = .ok v)
    (hcolumns : ∀ e ∈ groupBy, Value.Unblurred (Operator.column e rows)) :
    Classifies (alike groupBy) rows where
  refl r _ := sameKey_refl _
  symm a _ b _ hab := sameKey_symm hab
  trans a ha b hb c hc hab hbc := by
    refine sameKey_trans ?_ hab hbc
    intro i x y z hx hy hz
    obtain ⟨e, he, -, hxmem⟩ := mem_column_of_keyOf (fun e he => hkeys e he a ha) ha hx
    obtain ⟨e', he', -, hymem⟩ := mem_column_of_keyOf (fun e he => hkeys e he b hb) hb hy
    obtain ⟨e'', he'', -, hzmem⟩ := mem_column_of_keyOf (fun e he => hkeys e he c hc) hc hz
    cases he.symm.trans he'
    cases he.symm.trans he''
    exact hcolumns e (List.mem_of_getElem? he) x hxmem y hymem z hzmem

theorem Groupable.classifies (h : Groupable groupBy calls rows) : Classifies (alike groupBy) rows :=
  classifies_of_unblurred h.keys fun e he => (h.unmixed e he).unblurred

/-! ## Parts as classes -/

theorem assign_append {front : List Part}
    (h : ∀ p ∈ front, sameKey p.key (keyOf groupBy r) = false) (ps : List Part) :
    assign groupBy (front ++ ps) r = front ++ assign groupBy ps r := by
  induction front with
  | nil => rfl
  | cons p front ih =>
    obtain ⟨hp, hfront⟩ := List.forall_mem_cons.mp h
    rw [List.cons_append, assign, if_neg (by simp [hp]), ih hfront, List.cons_append]

def classPart (groupBy : List Expr) (rows : List Operator.Listed) (f : Operator.Listed) : Part :=
  ⟨keyOf groupBy f, classOf (alike groupBy) rows f⟩

theorem classPart_snoc_of_apart (h : alike groupBy f r = false) :
    classPart groupBy (rows ++ [r]) f = classPart groupBy rows f := by
  rw [classPart, Classes.classOf_snoc_of_apart h, classPart]

theorem parts_eq_classes (h : Classifies (alike groupBy) rows) :
    parts groupBy rows = (firsts (alike groupBy) rows).map (classPart groupBy rows) := by
  induction rows using List.reverseRecOn with
  | nil => rfl
  | append_singleton rows r ih =>
    have hsame : ∀ fs : List Operator.Listed, (∀ f ∈ fs, alike groupBy f r = false) →
        fs.map (classPart groupBy (rows ++ [r])) = fs.map (classPart groupBy rows) := fun fs hfs =>
      List.map_congr_left fun f hf => classPart_snoc_of_apart (hfs f hf)
    have hapart : ∀ fs : List Operator.Listed, (∀ f ∈ fs, alike groupBy f r = false) →
        ∀ p ∈ fs.map (classPart groupBy rows), sameKey p.key (keyOf groupBy r) = false := by
      intro fs hfs p hp
      obtain ⟨f, hf, rfl⟩ := List.mem_map.mp hp
      exact hfs f hf
    rw [parts_snoc, ih h.init]
    rcases Classes.firsts_snoc_cases h with
      ⟨front, f, back, hold, hnew, hfr, hrest⟩ | ⟨hnew, hfirsts, halone⟩
    · -- The row joins the class of `f` and no other one.
      have hfront : ∀ g ∈ front, alike groupBy g r = false := fun g hg =>
        hrest g (List.mem_append_left back hg)
      have hback : ∀ g ∈ back, alike groupBy g r = false := fun g hg =>
        hrest g (List.mem_append_right front hg)
      have hclass : classPart groupBy (rows ++ [r]) f =
          ⟨keyOf groupBy f, classOf (alike groupBy) rows f ++ [r]⟩ := by
        rw [classPart, Classes.classOf_snoc, hfr]
        rfl
      have hjoin : assign groupBy (classPart groupBy rows f :: back.map (classPart groupBy rows)) r =
          ⟨keyOf groupBy f, classOf (alike groupBy) rows f ++ [r]⟩ :: back.map (classPart groupBy rows) := by
        have hsameKey : sameKey (keyOf groupBy f) (keyOf groupBy r) = true := hfr
        rw [classPart, assign, if_pos hsameKey]
      rw [hold, hnew, List.map_append, List.map_cons, assign_append (hapart front hfront), hjoin,
        List.map_append, List.map_cons, hsame front hfront, hsame back hback, hclass]
    · -- The row is the first one of its class.
      have hclass : classPart groupBy (rows ++ [r]) r = ⟨keyOf groupBy r, [r]⟩ := by
        have hnone : classOf (alike groupBy) rows r = [] := by simpa [classOf] using halone
        rw [classPart, Classes.classOf_snoc, hnone, h.refl r (by simp)]
        rfl
      have hassign := assign_append (hapart _ hfirsts) []
      rw [List.append_nil] at hassign
      rw [hassign, hnew, List.map_append, hsame _ hfirsts, List.map_singleton, hclass]
      rfl

theorem gathered_eq_grouped (h : Groupable groupBy calls rows) :
    gathered groupBy calls rows = .ok (grouped groupBy calls rows) := by
  have hcomputable : ∀ p ∈ wholeParts groupBy rows, ∀ call ∈ calls, call.Computable p.members := by
    rw [wholeParts]
    split
    · intro p hp call _
      cases List.mem_singleton.mp hp
      exact AggregateCall.computable_nil
    · rw [parts_eq_classes h.classifies]
      intro p hp
      obtain ⟨f, hf, rfl⟩ := List.mem_map.mp hp
      exact h.calls f (Classes.mem_of_mem_firsts hf)
  have houtput : ∀ p ∈ wholeParts groupBy rows,
      p.output groupBy calls = .ok (outputOf groupBy calls p.key p.members) := by
    intro p hp
    rw [Part.output, mapM_congr fun call hcall =>
      AggregateCall.outcome_of_computable (hcomputable p hp call hcall)]
    have hcells : calls.mapM (fun call => (.ok (call.cell p.members) : Except ExecError Value)) =
        .ok (calls.map (·.cell p.members)) := List.mapM_pure
    rw [hcells]
    rfl
  rw [gathered, mapM_congr houtput]
  have hpure : (wholeParts groupBy rows).mapM (fun p =>
      (.ok (outputOf groupBy calls p.key p.members) : Except ExecError (Row × Step))) =
        .ok ((wholeParts groupBy rows).map fun p => outputOf groupBy calls p.key p.members) :=
    List.mapM_pure
  rw [hpure, wholeParts, grouped, parts_eq_classes h.classifies]
  split
  · rfl
  · rw [List.map_map]
    rfl

end Group

namespace Operator

variable {groupBy : List Expr} {calls : List AggregateCall} {input input' : Operator}
  {buffer : Buffer} {t : TxHandle} {db db' : Database} {rows : List Listed} {n : Nat}

/-- Grouping yields one row for each class of rows with equal keys, in the order of their first rows:
the key, then the results of the calls for the class, contested if a row of the class is. Every row
of the input is in exactly one class. -/
theorem aggregate_executes
    (hn : n + 1 = (aggregate groupBy calls input buffer).steps db.catalog)
    (h : Drains n t input db rows input' db') (hrows : Group.Groupable groupBy calls rows) :
    (aggregate groupBy calls input buffer).Executes t db
        ((Group.grouped groupBy calls rows).map fun r => (r.2, .ok r.1)) (.ok ()) ∧
      ((firsts (Group.alike groupBy) rows).map
        (classOf (Group.alike groupBy) rows)).flatten.Perm rows :=
  ⟨executes_of_gathered hn h (fun r hr => Group.evalAll_keyOf fun e he => hrows.keys e he r hr)
    (Group.gathered_eq_grouped hrows), Classes.flatten_classes_perm hrows.classifies⟩

def pair (key number : Value) : Row :=
  { names := [.qualified "t" "k", .qualified "t" "n"], values := [key, number] }

/-- Two rows with the key 1 and between them a contested one with the key NULL. -/
def pairs : StringList where
  buffer := { rows := #[(pair (.integer 1) (.integer 2), .row), (pair .null .null, .contested),
    (pair (.integer 1) (.integer 5), .row)] }

def pairRows : List Listed := pairs.buffer.rows.toList.map fun r => (.owned r.1, r.2)

/-- `COUNT(*), SUM(t.n), MAX(t.n)` -/
def pairCalls : List AggregateCall :=
  [⟨.count, none⟩, ⟨.sum, some (.field ⟨"t", "n", .integer⟩)⟩,
    ⟨.max, some (.field ⟨"t", "n", .integer⟩)⟩]

theorem groupable_pairs :
    Group.Groupable [.field ⟨"t", "k", .integer⟩] pairCalls pairRows := by
  have hnumbers : ∀ r ∈ pairRows, ∃ v, r.1.eval (.field ⟨"t", "n", .integer⟩) = .ok v := by
    simp only [pairRows, pairs, List.map_cons, List.map_nil, List.forall_mem_cons]
    exact ⟨⟨_, rfl⟩, ⟨_, rfl⟩, ⟨_, rfl⟩, nofun⟩
  have hclass : ∀ f ∈ pairRows, ∀ r ∈ classOf (Group.alike [.field ⟨"t", "k", .integer⟩]) pairRows f,
      r ∈ pairRows := fun f _ r hr => (List.mem_filter.mp hr).1
  constructor
  case keys =>
    simp only [pairRows, pairs, List.map_cons, List.map_nil, List.forall_mem_cons]
    exact ⟨⟨⟨_, rfl⟩, ⟨_, rfl⟩, ⟨_, rfl⟩, nofun⟩, nofun⟩
  case unmixed =>
    simp only [List.forall_mem_cons]
    exact ⟨by decide, nofun⟩
  case calls =>
    intro f hf call hcall
    have hsums : ∀ f ∈ pairRows, (Value.sum? (AggregateCall.values
        ⟨.sum, some (.field ⟨"t", "n", .integer⟩)⟩
        (classOf (Group.alike [.field ⟨"t", "k", .integer⟩]) pairRows f))).isSome := by
      simp only [pairRows, pairs, List.map_cons, List.map_nil, List.forall_mem_cons]
      exact ⟨rfl, rfl, rfl, nofun⟩
    have hcompares : ∀ f ∈ pairRows, Value.Unmixed (AggregateCall.values
        ⟨.max, some (.field ⟨"t", "n", .integer⟩)⟩
        (classOf (Group.alike [.field ⟨"t", "k", .integer⟩]) pairRows f)) := by
      simp only [pairRows, pairs, List.map_cons, List.map_nil, List.forall_mem_cons]
      exact ⟨by decide, by decide, by decide, nofun⟩
    simp only [pairCalls, List.mem_cons, List.not_mem_nil, or_false] at hcall
    rcases hcall with rfl | rfl | rfl
    · exact ⟨nofun, by simp, by simp⟩
    · refine ⟨?_, fun _ => hsums f hf, by simp⟩
      rintro e ⟨⟩ r hr
      exact hnumbers r (hclass f hf r hr)
    · refine ⟨?_, by simp, fun _ => hcompares f hf⟩
      rintro e ⟨⟩ r hr
      exact hnumbers r (hclass f hf r hr)

theorem aggregate_executes_pairs :
    (aggregate [.field ⟨"t", "k", .integer⟩] pairCalls (.stringList pairs) {}).Executes ⟨0⟩ {}
      [(.row, .ok
          { names := [.qualified "t" "k", .plain "COUNT(*)", .plain "SUM(t.n)", .plain "MAX(t.n)"],
            values := [.integer 1, .integer 2, .integer 7, .integer 5] }),
        (.contested, .ok
          { names := [.qualified "t" "k", .plain "COUNT(*)", .plain "SUM(t.n)", .plain "MAX(t.n)"],
            values := [.null, .integer 1, .null, .null] })] (.ok ()) := by
  have hsteps : ∀ r ∈ pairs.buffer.rows.toList, r.2 ≠ .done := by decide
  obtain ⟨input', hdrains⟩ := drains_stringList (n := 0x4000000000000009) pairs hsteps (by decide)
    ⟨0⟩ {}
  have hn : 0x4000000000000009 + 1 =
      (aggregate [.field ⟨"t", "k", .integer⟩] pairCalls (.stringList pairs) {}).steps
        ({} : Database).catalog := rfl
  exact (aggregate_executes hn hdrains groupable_pairs).1

end Operator

/-- Over a query as planning makes it, which comes to its end, grouping yields what it means. -/
theorem QueryTree.executes_aggregate {groupBy : List Expr} {calls : List AggregateCall} {q : QueryTree}
    {t : TxHandle} {db : Database} {s : Stream} (hq : q.Fresh) (h : db.Active t)
    (hs : q.stream (db.reader t) = .ok s) (hlast : s.last = .ok ())
    (hrows : Group.Groupable groupBy calls s.listed) :
    (aggregate groupBy calls q).operator.Executes t db
      ((Group.grouped groupBy calls s.listed).map fun r => (r.2, .ok r.1)) (.ok ()) := by
  obtain ⟨n, op', db', hn, hdrains⟩ :=
    drains_stream hq h hs hlast (aggregate groupBy calls q).operator rfl
  exact Operator.executes_of_gathered hn hdrains
    (fun r hr => Group.evalAll_keyOf fun e he => hrows.keys e he r hr)
    (Group.gathered_eq_grouped hrows)

end SnapshotSql
