import SnapshotSql.Proofs.Session.Changes
import Mathlib.Data.List.Forall2
/-! # Versions that are replaced -/

namespace SnapshotSql

theorem forall₂_of_mapM {ε α β : Type} {f : α → Except ε β} {xs : List α} {ys : List β}
    (h : xs.mapM f = .ok ys) : List.Forall₂ (fun x y => f x = .ok y) xs ys := by
  induction xs generalizing ys with
  | nil =>
    cases h
    exact .nil
  | cons x xs ih =>
    obtain ⟨y, rest, hy, hrest, rfl⟩ := mapM_eq_ok_cons h
    exact .cons hy (ih hrest)

/-! ## New values -/

/-- Setting columns evaluates every assignment on the old row. A column gets the value of the last
assignment to it. -/
theorem Operator.assign_eq_ok {view : RowView} {assignments : List (Nat × Expr)}
    {values values' : List Value} (h : assign view assignments values = .ok values') :
    (∀ a ∈ assignments, ∃ x, view.eval a.2 = .ok x) ∧ values'.length = values.length ∧
      ∀ i, values'[i]? = (assignments.reverse.find? (·.1 = i)).elim values[i]? fun a =>
        (view.eval a.2).toOption := by
  induction assignments generalizing values with
  | nil =>
    cases h
    simp
  | cons a rest ih =>
    obtain ⟨k, e⟩ := a
    obtain ⟨x, hx, h⟩ := bind_eq_ok.mp h
    split at h
    · rename_i hk
      obtain ⟨hrest, hlength, hvalues⟩ := ih h
      refine ⟨List.forall_mem_cons.mpr ⟨⟨x, hx⟩, hrest⟩, by simpa using hlength, ?_⟩
      intro i
      rw [hvalues, List.reverse_cons, List.find?_append]
      cases hlast : rest.reverse.find? (·.1 = i) with
      | some a => simp
      | none =>
        by_cases hi : k = i
        · subst hi
          simp [hk, hx, Except.toOption]
        · simp [hi]
    · cases h

def Assignment.last? (s : TableSchema) (i : Nat) (sets : List Assignment) : Option Assignment :=
  sets.reverse.find? fun a => s.columnIndex? a.field = some i

theorem Assignment.last?_of_checked {s : TableSchema} {sets : List Assignment}
    {targets : List (Nat × Expr)} (h : sets.mapM (Plan.checkAssignment s) = .ok targets) (i : Nat) :
    (targets.reverse.find? (·.1 = i)).map (·.2) = (last? s i sets).map (·.value) := by
  induction sets generalizing targets with
  | nil =>
    cases h
    rfl
  | cons a rest ih =>
    obtain ⟨target, targets', htarget, htargets, rfl⟩ := mapM_eq_ok_cons h
    obtain ⟨hk, hvalue⟩ := Plan.checkAssignment_eq_ok htarget
    have hlast := ih htargets
    rw [last?] at hlast ⊢
    rw [List.reverse_cons, List.reverse_cons, List.find?_append, List.find?_append, Option.map_or,
      Option.map_or, hlast]
    by_cases hi : target.1 = i <;> simp [hk, hvalue, hi]

namespace Catalog

/-- The values that an UPDATE replaces those of a version with. -/
structure Replaces (c : Catalog) (table : TableId) (sets : List Assignment) (v : Version)
    (values : List Value) : Prop where
  evaluated : ∀ a ∈ sets, ∃ x, (c.fullRow table v).eval a.value = .ok x
  length : values.length = v.values.length
  column : ∀ i, values[i]? = (Assignment.last? (c.table table).schema i sets).elim v.values[i]? fun a =>
    ((c.fullRow table v).eval a.value).toOption

theorem replaces_of_replacement {c : Catalog} {table : TableId} {sets : List Assignment}
    {targets : List (Nat × Expr)} {v : Version} {change : RowId × List Value}
    (htargets : sets.mapM (Plan.checkAssignment (c.table table).schema) = .ok targets)
    (h : c.replacement table targets v = .ok change) : c.Replaces table sets v change.2 := by
  obtain ⟨values, hvalues, rfl⟩ := map_eq_ok.mp h
  obtain ⟨hevaluated, hlength, hcolumn⟩ := Operator.assign_eq_ok hvalues
  refine ⟨?_, hlength, ?_⟩
  · intro a ha
    obtain ⟨k, hk⟩ := List.getElem?_of_mem ha
    obtain ⟨target, htarget, hchecked⟩ := getElem?_of_mapM htargets hk
    rw [← (Plan.checkAssignment_eq_ok hchecked).2]
    exact hevaluated target (List.mem_of_getElem? htarget)
  · intro i
    have helim : ∀ o : Option (Nat × Expr), (o.elim v.values[i]? fun a =>
        ((c.fullRow table v).eval a.2).toOption) = (o.map (·.2)).elim v.values[i]? fun e =>
          ((c.fullRow table v).eval e).toOption := by
      intro o
      cases o <;> rfl
    rw [hcolumn, helim, Assignment.last?_of_checked htargets]
    cases Assignment.last? (c.table table).schema i sets <;> rfl

end Catalog

/-! ## Operators that write -/

namespace Session

variable {t : TxHandle} {db : Database} {table : TableId} {filter : Option Expr} {input : Operator}
  {targets : List (Nat × Expr)} {stmt : Statement} {op : Operator}

private def collecting {σ : Type} (opened : Turn Unit) (read : Operator → Database → Turn σ)
    (unread before : Operator → Operator) (change : σ → Action TxError Unit)
    (after : Operator → σ → Operator) : Turn Unit :=
  match opened.answer with
  | .error e => .fail e (unread opened.op) opened.db
  | .ok () =>
    match (read opened.op opened.db).answer with
    | .error e => .fail e (before (read opened.op opened.db).op) (read opened.op opened.db).db
    | .ok rows =>
      .ofAction (change rows) (read opened.op opened.db).db (before (read opened.op opened.db).op)
        fun _ => after (read opened.op opened.db).op rows

private theorem affected_collecting {σ : Type} {opened : Turn Unit}
    {read : Operator → Database → Turn σ} {unread before : Operator → Operator}
    {change : σ → Action TxError Unit} {after : Operator → σ → Operator}
    (hafter : ∀ op rows, ∃ count, (after op rows).affected = some count)
    (h : (collecting opened read unread before change after).answer = .ok ()) :
    ∃ count, (collecting opened read unread before change after).op.affected = some count := by
  unfold collecting at h ⊢
  cases hopened : opened.answer with
  | error e =>
    rw [hopened] at h
    cases h
  | ok _ =>
    simp only [hopened] at h ⊢
    generalize read opened.op opened.db = rest at h ⊢
    cases hread : rest.answer with
    | error e =>
      rw [hread] at h
      cases h
    | ok rows =>
      simp only [hread, Turn.ofAction] at h ⊢
      cases hrun : (change rows).run rest.db with
      | error e db' =>
        rw [hrun] at h
        cases h
      | ok _ db' => exact hafter rest.op rows

private theorem affected_delete {n : Nat}
    (h : ((Operator.delete table input none).openIn n t db).answer = .ok ()) :
    ∃ count, ((Operator.delete table input none).openIn n t db).op.affected = some count := by
  cases n with
  | zero => cases h
  | succ n =>
    have hopen : (Operator.delete table input none).openIn (n + 1) t db =
        collecting (input.openIn n t db)
          (Operator.foldRows (Operator.nextIn n .empty) (Operator.collectTarget table input.kind) n #[])
          (fun op => .delete table op none) (fun op => .delete table op.close none)
          (fun rids => Operator.deleteRows t table rids.toList)
          fun op rids => .delete table op.close (some rids.size) := by
      rw [Operator.openIn, collecting]
      generalize input.openIn n t db = opened
      cases opened.answer with
      | error e => rfl
      | ok _ =>
        dsimp only
        generalize Operator.foldRows _ _ n _ opened.op opened.db = read
        cases read.answer <;> rfl
    rw [hopen] at h ⊢
    exact affected_collecting (fun _ _ => ⟨_, rfl⟩) h

private theorem affected_update {n : Nat}
    (h : ((Operator.update table targets input none).openIn n t db).answer = .ok ()) :
    ∃ count, ((Operator.update table targets input none).openIn n t db).op.affected = some count := by
  cases n with
  | zero => cases h
  | succ n =>
    have hopen : (Operator.update table targets input none).openIn (n + 1) t db =
        collecting (input.openIn n t db) (Operator.foldRows (Operator.nextIn n .empty)
            (Operator.collectChange table targets input.kind) n #[])
          (fun op => .update table targets op none) (fun op => .update table targets op.close none)
          (fun changes => Operator.updateRows t table changes.toList)
          fun op changes => .update table targets op.close (some changes.size) := by
      rw [Operator.openIn, collecting]
      generalize input.openIn n t db = opened
      cases opened.answer with
      | error e => rfl
      | ok _ =>
        dsimp only
        generalize Operator.foldRows _ _ n _ opened.op opened.db = read
        cases read.answer <;> rfl
    rw [hopen] at h ⊢
    exact affected_collecting (fun _ _ => ⟨_, rfl⟩) h

private theorem conclude_affected {turn : Turn Unit} {count : Nat}
    (hstmt : stmt = .delete table filter ∨ ∃ sets, stmt = .update table sets filter)
    (hanswer : turn.answer = .ok ()) (hcount : turn.op.affected = some count) :
    (conclude stmt turn).outcome = (.ok (.modified count), turn.db) := by
  rw [conclude_ok hanswer]
  rcases hstmt with rfl | ⟨sets, rfl⟩ <;> simp [collect, hcount, Turn.ok, Turn.outcome]

private theorem outcome_delete_opened (filter : Option Expr)
    (hanswer : ((Operator.delete table input none).openUnder t db).answer = .ok ()) :
    ∃ count, ((Operator.delete table input none).openUnder t db).op.affected = some count ∧
      (drive (.delete table filter) (.delete table input none) t db).outcome =
        (.ok (.modified count), ((Operator.delete table input none).openUnder t db).db) := by
  obtain ⟨count, hcount⟩ := affected_delete hanswer
  rw [drive]
  exact ⟨count, hcount, conclude_affected (.inl rfl) hanswer hcount⟩

private theorem outcome_update_opened (sets : List Assignment) (filter : Option Expr)
    (hanswer : ((Operator.update table targets input none).openUnder t db).answer = .ok ()) :
    ∃ count, ((Operator.update table targets input none).openUnder t db).op.affected = some count ∧
      (drive (.update table sets filter) (.update table targets input none) t db).outcome =
        (.ok (.modified count), ((Operator.update table targets input none).openUnder t db).db) := by
  obtain ⟨count, hcount⟩ := affected_update hanswer
  rw [drive]
  exact ⟨count, hcount, conclude_affected (.inr ⟨sets, rfl⟩) hanswer hcount⟩

private theorem outcome_opened_error (stmt : Statement) {op : Operator} {e : ExecError}
    (hanswer : (op.openUnder t db).answer = .error e) :
    (drive stmt op t db).outcome = (.error e, (op.openUnder t db).db) := by
  rw [drive]
  exact conclude_error hanswer

private theorem deleter_of_mem_matching {c : Catalog} {v : Version}
    (hv : v ∈ c.matching table (db.reader t) .write filter) : v.deleter ≠ some (db.start t).1 := by
  obtain ⟨_, hsee⟩ := List.mem_filter.mp hv
  obtain ⟨_, hdeleter⟩ := Registry.visibility_write.mp (of_decide_eq_true hsee).1
  intro hme
  exact (hdeleter _ hme).1 rfl

private theorem number?_of_applied {rids : List RowId} {rows : List (List Value)} {db' : Database}
    (ht : db.Knows t) (h : (db.begun t).Applied (db.start t).1 table rids rows db') :
    db'.number? t = some (db.start t).1 :=
  Database.number?_applied (Database.number?_begun ht) h

/-- A statement is planned at some time and opened under an active transaction later. The versions that it
finds are those that the transaction sees for writing and that meet the condition. A DELETE that succeeds
has stamped them and left everything else alone, and one that fails has changed no table. An UPDATE that
succeeds has stamped them and appended a replacement for each, in their order, which fits the table. -/
theorem openUnder_changes (h : History) {j k : Nat} (hjk : j ≤ k) (ht : (h.stateAt k).Active t)
    (htable : table.index < (h.stateAt j).catalog.tables.size) (s : Session) (filter : Option Expr) :
    let c := (h.stateAt j).catalog
    let db := h.stateAt k
    let me := (db.start t).1
    let found := c.matching table (db.reader t) .write filter
    (∀ v ∈ found, v.deleter ≠ some me) ∧
    (∀ op, s.plan c (.delete table filter) = .ok op →
      ((op.openUnder t db).answer = .ok () →
        (op.openUnder t db).op.affected = some found.length ∧
        (op.openUnder t db).db.number? t = some me ∧
        db.Rewrites me table found [] (op.openUnder t db).db) ∧
      ∀ e, (op.openUnder t db).answer = .error e →
        (op.openUnder t db).db.catalog = db.catalog) ∧
    ∀ sets op, s.plan c (.update table sets filter) = .ok op →
      (op.openUnder t db).answer = .ok () →
        (op.openUnder t db).op.affected = some found.length ∧
        (op.openUnder t db).db.number? t = some me ∧
        ∃ rows, List.Forall₂ (c.Replaces table sets) found rows ∧
          (∀ row ∈ rows, (db.catalog.table table).schema.recordFault? row = none) ∧
          db.Rewrites me table found rows (op.openUnder t db).db := by
  intro c db me found
  have hsound : db.Sound := h.sound_stateAt k
  have hextends : c.Extends db.catalog := h.extends_stateAt hjk
  have hsize : table.index < db.catalog.tables.size := Nat.lt_of_lt_of_le htable hextends.size
  have hrewrites : ∀ {rows db'}, (db.begun t).Applied me table (found.map (·.rid)) rows db' →
      db.Rewrites me table found rows db' := by
    intro rows db' happlied
    apply Database.rewrites_of_applied hsound hsize _ happlied
    exact fun v hv => Database.mem_versions.mp (List.mem_filter.mp hv).1
  refine ⟨fun v hv => deleter_of_mem_matching hv, ?_, ?_⟩
  · intro op hop
    rw [plan_delete] at hop
    split at hop
    · cases hop
    · cases hop
      constructor
      · intro hanswer
        obtain ⟨count, hcount, houtcome⟩ := outcome_delete_opened filter hanswer
        obtain ⟨-, happlied, hresult⟩ := applied_delete hsound ht houtcome
        cases hresult
        exact ⟨hcount, number?_of_applied ht.1 happlied,
          hrewrites happlied⟩
      · intro e hanswer
        have houtcome := outcome_opened_error (.delete table filter) hanswer
        rcases outcome_delete c s.options.policy table filter hsound ht with
          ⟨e', -, hfailed⟩ | ⟨-, db', -, hdone⟩
        · rw [hfailed, Prod.mk.injEq] at houtcome
          rw [← houtcome.2, Database.begun_catalog]
        · cases houtcome.symm.trans hdone
  · intro sets op hop hanswer
    have hwidth : ∀ v ∈ (db.reader t).versions table,
        v.values.length = (c.table table).schema.width := by
      intro v hv
      rw [Database.length_values (h.formed_stateAt k) table v hv, TableSchema.width, TableSchema.width,
        hextends.columns htable]
    rw [plan_update] at hop
    split at hop
    · cases hop
    · rename_i targets htargets
      cases hop
      obtain ⟨targets', hsets, htargets⟩ := bind_eq_ok.mp htargets
      obtain ⟨_, _, htargets⟩ := bind_eq_ok.mp htargets
      cases htargets
      obtain ⟨count, hcount, houtcome⟩ := outcome_update_opened sets filter hanswer
      obtain ⟨-, changes, hchanges, hfits, happlied, hresult⟩ := applied_update hsound hwidth ht houtcome
      cases hresult
      have hpairs := forall₂_of_mapM hchanges
      have hrids : changes.map (·.1) = found.map (·.rid) := rids_of_replacement hchanges
      rw [hrids] at happlied
      refine ⟨by rw [hcount, hpairs.length_eq], number?_of_applied ht.1 happlied,
        changes.map (·.2), ?_, ?_, hrewrites happlied⟩
      · rw [List.forall₂_map_right_iff]
        exact hpairs.imp fun _ _ hchange => Catalog.replaces_of_replacement hsets hchange
      · intro row hrow
        obtain ⟨change, hchange, rfl⟩ := List.mem_map.mp hrow
        exact hfits change hchange

/-- A table gets two rows, which are committed, and another transaction begins. -/
def twoPairs : History :=
  [.keepTable ⟨"t", [⟨"a", .integer, true⟩, ⟨"b", .integer, true⟩]⟩, .begin .readCommitted,
    .insertRow ⟨0⟩ ⟨0⟩ [.integer 1, .integer 2], .insertRow ⟨0⟩ ⟨0⟩ [.integer 3, .integer 4],
    .commit ⟨0⟩, .begin .readCommitted]

/-- `SET a = t.b, b = t.a`. -/
def swaps : List Assignment :=
  [⟨"a", .field ⟨"t", "b", .integer⟩⟩, ⟨"b", .field ⟨"t", "a", .integer⟩⟩]

/-- `t.a = 1`. -/
def firstIsOne : Expr := .comparison .eq (.field ⟨"t", "a", .integer⟩) (.literal (.integer 1))

/-- The operators of `UPDATE t SET a = t.b, b = t.a WHERE t.a = 1`, planned before there are rows. -/
def swapFirst : Operator :=
  .update ⟨0⟩ [(0, .field ⟨"t", "b", .integer⟩), (1, .field ⟨"t", "a", .integer⟩)]
    (QueryTree.targets (twoPairs.stateAt 1).catalog .absorbUnmatched ⟨0⟩ (some firstIsOne)).operator none

theorem openUnder_changes_swapFirst :
    (twoPairs.stateAt 6).Active ⟨1⟩ ∧
      ({} : Session).plan (twoPairs.stateAt 1).catalog (.update ⟨0⟩ swaps (some firstIsOne)) =
        .ok swapFirst ∧
      (swapFirst.openUnder ⟨1⟩ (twoPairs.stateAt 6)).answer = .ok () ∧
      (swapFirst.openUnder ⟨1⟩ (twoPairs.stateAt 6)).op.affected = some 1 ∧
      ∃ found rows, List.Forall₂ ((twoPairs.stateAt 1).catalog.Replaces ⟨0⟩ swaps) found rows ∧
        (twoPairs.stateAt 6).Rewrites ⟨2⟩ ⟨0⟩ found rows
          (swapFirst.openUnder ⟨1⟩ (twoPairs.stateAt 6)).db := by
  have hactive : (twoPairs.stateAt 6).Active ⟨1⟩ := ⟨by decide, rfl⟩
  have hop : ({} : Session).plan (twoPairs.stateAt 1).catalog
      (.update ⟨0⟩ swaps (some firstIsOne)) = .ok swapFirst := rfl
  have hanswer : (swapFirst.openUnder ⟨1⟩ (twoPairs.stateAt 6)).answer = .ok () := by
    have hsome : (swapFirst.openUnder ⟨1⟩ (twoPairs.stateAt 6)).answer.toOption.isSome = true := by
      decide +kernel
    generalize swapFirst.openUnder ⟨1⟩ (twoPairs.stateAt 6) = turn at hsome ⊢
    obtain ⟨answer, op, db⟩ := turn
    cases answer with
    | error e => cases hsome
    | ok _ => rfl
  have htable : (⟨0⟩ : TableId).index < (twoPairs.stateAt 1).catalog.tables.size := by decide
  obtain ⟨-, -, hupdate⟩ := openUnder_changes twoPairs (j := 1) (by decide) hactive htable {}
    (some firstIsOne)
  obtain ⟨hcount, -, rows, hrows, -, hrewrites⟩ := hupdate swaps swapFirst hop hanswer
  have hfound : ((twoPairs.stateAt 1).catalog.matching ⟨0⟩ ((twoPairs.stateAt 6).reader ⟨1⟩) .write
      (some firstIsOne)).length = 1 := by decide +kernel
  exact ⟨hactive, hop, hanswer, by rw [hcount, hfound], _, rows, hrows, hrewrites⟩

end Session

end SnapshotSql
