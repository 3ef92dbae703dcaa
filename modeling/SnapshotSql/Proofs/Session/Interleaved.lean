import SnapshotSql.Proofs.Query.Moments
import SnapshotSql.Proofs.Session.Planned
import SnapshotSql.Proofs.Session.System
/-! # Reading while others work -/

namespace SnapshotSql

/-- A plan that a transaction opens, and what others do before each call for the next row. -/
structure Reading where
  t : TxHandle
  op : Operator
  db : Database
  between : Nat → List TxOp

namespace Reading

variable {r : Reading} {q : QueryTree} {k : Nat}

/-- The operator and the database after the opening and some calls for the next row. -/
def after (r : Reading) : Nat → Operator × Database
  | 0 => ((r.op.openUnder r.t r.db).op, (r.op.openUnder r.t r.db).db)
  | k + 1 =>
    let turn := (r.after k).1.next .empty
      ((r.between k).foldl (fun db op => (op.perform db).2) (r.after k).2)
    (turn.op, turn.db)

/-- The database in which the plan is opened, and those in which its next rows are asked for. -/
def moment (r : Reading) : Nat → Database
  | 0 => r.db
  | k + 1 => (r.between k).foldl (fun db op => (op.perform db).2) (r.after k).2

def fetch (r : Reading) (k : Nat) : Turn Step := (r.after k).1.next .empty (r.moment (k + 1))

theorem after_succ (r : Reading) (k : Nat) : r.after (k + 1) = ((r.fetch k).op, (r.fetch k).db) := rfl

theorem after_zero (r : Reading) :
    r.after 0 = ((r.op.openUnder r.t r.db).op, (r.op.openUnder r.t r.db).db) := rfl

/-- The transaction has what it needs to read under read committed. -/
structure Able (t : TxHandle) (db : Database) : Prop where
  reachable : db.Reachable
  active : db.Active t
  level : (db.transaction t).isolation.pinsSnapshot = false

structure Stands (r : Reading) (q : QueryTree) (k : Nat) : Prop where
  moments : ∀ j ≤ k, Able r.t (r.moment j)
  able : Able r.t (r.after k).2
  opened : q.Open r.t r.moment (r.after k).2 k 0 (r.after k).1

private theorem stands_of_eq {op : Operator} {db : Database} (hafter : r.after k = (op, db))
    (hmoments : ∀ j ≤ k, Able r.t (r.moment j)) (hable : Able r.t db)
    (hopened : q.Open r.t r.moment db k 0 op) : r.Stands q k := by
  refine ⟨hmoments, ?_, ?_⟩
  · rw [hafter]
    exact hable
  · rw [hafter]
    exact hopened

private theorem able_phase {t : TxHandle} {db : Database} (h : Able t db) (started : Bool) :
    Able t (db.phase t started) where
  reachable := Database.reachable_works h.reachable (Database.works_phase h.active started)
  active := Database.active_phase h.active
  level := by
    cases started with
    | false => exact h.level
    | true =>
      have hbegun := Database.transaction_begun_self h.active.1
      rw [Database.phase, if_pos rfl, hbegun]
      exact h.level

private theorem able_perform {t : TxHandle} {db : Database} {op : TxOp} (h : Able t db)
    (hop : op.actor? ≠ some t) : Able t (op.perform db).2 := by
  have hevolves := Database.evolves_perform (Database.sound_of_reachable h.reachable) op
  obtain ⟨n, hn⟩ := TxOp.transaction_perform_of_ne hop h.active.1
  refine ⟨Database.reachable_works h.reachable (Database.works_perform (p := (· = op)) op rfl db),
    ⟨hevolves.knows h.active.1, ?_⟩, ?_⟩
  · rw [hn, h.active.2]
  · rw [hn]
    exact h.level

private theorem moments_of_able {n : Nat} (h : ∀ j ≤ n, Able r.t (r.moment j)) :
    QueryTree.Moments r.t r.moment n where
  sound j hj := Database.sound_of_reachable (h j hj).reachable
  active j hj := (h j hj).active
  level j hj := (h j hj).level

private theorem able_moment (h : r.Stands q k) (hothers : ∀ op ∈ r.between k, op.actor? ≠ some r.t) :
    Able r.t (r.moment (k + 1)) ∧ ∀ db, Database.Lasts r.t db (r.after k).2 →
      Database.Lasts r.t db (r.moment (k + 1)) := by
  have hworks : (r.after k).2.Works (·.actor? ≠ some r.t) (r.moment (k + 1)) :=
    ⟨r.between k, hothers, rfl⟩
  refine Database.works_keeps (P := fun db' => Able r.t db' ∧ ∀ db,
    Database.Lasts r.t db (r.after k).2 → Database.Lasts r.t db db') hworks ?_ ⟨h.able, fun _ => id⟩
  rintro op db' hop ⟨hable, hlasts⟩
  exact ⟨able_perform hable hop, fun db hdb => Database.lasts_perform
    (Database.sound_of_reachable hable.reachable) hable.active hop (hlasts db hdb)⟩

private theorem able_moments (h : r.Stands q k)
    (hothers : ∀ op ∈ r.between k, op.actor? ≠ some r.t) : ∀ j ≤ k + 1, Able r.t (r.moment j) := by
  intro j hj
  rcases Nat.le_succ_iff.mp hj with hj | rfl
  · exact h.moments j hj
  · exact (able_moment h hothers).1

private theorem advanced_fetch (h : r.Stands q k)
    (hothers : ∀ op ∈ r.between k, op.actor? ≠ some r.t) :
    QueryTree.Advanced r.t r.moment (k + 1) q 0 (r.moment (k + 1))
      (QueryTree.Delivered r.t r.moment (k + 1) q 0) (r.fetch k) := by
  have hlasts := (able_moment h hothers).2
  exact (QueryTree.calls_at (moments_of_able (able_moments h hothers)) _).2 (Nat.zero_le _) ⟨false, rfl⟩
    (QueryTree.open_later (Nat.le_succ k) (fun _ _ => hlasts _) h.opened)

private theorem stands_succ (h : r.Stands q k)
    (hothers : ∀ op ∈ r.between k, op.actor? ≠ some r.t) : r.Stands q (k + 1) := by
  obtain ⟨⟨started, hdb⟩, hopened, _⟩ := advanced_fetch h hothers
  have hable := able_phase (able_moment h hothers).1 started
  rw [← hdb] at hable
  exact stands_of_eq (after_succ r k) (able_moments h hothers) hable hopened

private theorem stands_zero (hable : Able r.t r.db) (hop : r.op = q.operator) (hq : q.ReadOnly)
    (hopen : (r.op.openUnder r.t r.db).answer = .ok ()) : r.Stands q 0 := by
  have hmoments : ∀ j ≤ 0, Able r.t (r.moment j) := by
    intro j hj
    rw [Nat.le_zero.mp hj]
    exact hable
  have hholds : q.Holds r.t r.moment 0 r.op := hop ▸ QueryTree.holds_operator hq
  have hduring : QueryTree.During r.t r.moment 0 r.db := ⟨false, rfl⟩
  obtain ⟨⟨started, hdb⟩, _, hopened⟩ := (QueryTree.calls_at (moments_of_able hmoments)
    (r.op.steps r.db.catalog)).1 hduring hholds
  rw [← Operator.openUnder] at hdb hopened
  have hable := able_phase hable started
  rw [← hdb] at hable
  exact stands_of_eq (after_zero r) hmoments hable (hopened () hopen)

private theorem stands (hable : Able r.t r.db) (hop : r.op = q.operator) (hq : q.ReadOnly)
    (hopen : (r.op.openUnder r.t r.db).answer = .ok ())
    (hothers : ∀ k, ∀ op ∈ r.between k, op.actor? ≠ some r.t) (k : Nat) : r.Stands q k := by
  induction k with
  | zero => exact stands_zero hable hop hq hopen
  | succ k ih => exact stands_succ ih (hothers k)

/-- Every row that a planned query delivers under read committed, whatever other transactions do between
the calls, is built from what its transaction could read when the plan was opened, except that the inner
side of a join that hands on its rows reads at some moment between the opening and the call that delivers
the row. Without such a join, everything was read when the plan was opened. -/
theorem fetch_built (r : Reading) (s : Session) (c : Catalog) (query : Select)
    (hplan : s.plan c (.select query) = .ok r.op) (hdb : r.db.Reachable) (ht : r.db.Active r.t)
    (hlevel : (r.db.transaction r.t).isolation = .readCommitted)
    (hopen : (r.op.openUnder r.t r.db).answer = .ok ())
    (hothers : ∀ k, ∀ op ∈ r.between k, op.actor? ≠ some r.t) :
    ∃ q : QueryTree, r.op = q.operator ∧ ∀ k step, (r.fetch k).answer = .ok step → step ≠ .done →
      ∃ v, (r.fetch k).op.current = .ok v ∧ q.Built r.t r.moment 0 (k + 1) v ∧
        (q.streamsJoin = false → q.Built r.t r.moment 0 0 v) := by
  obtain ⟨q, hop, _, hq⟩ := Session.plan_select hplan
  refine ⟨q, hop, fun k step hanswer hstep => ?_⟩
  have hable : Able r.t r.db := ⟨hdb, ht, by rw [hlevel]; rfl⟩
  have hfetch := advanced_fetch (stands hable hop hq hopen hothers k) (hothers k)
  rcases hfetch.answer step hanswer with rfl | ⟨_, v, hcurrent, hbuilt⟩
  · exact absurd rfl hstep
  · exact ⟨v, hcurrent, hbuilt, fun hq => QueryTree.built_at_opening hq hbuilt⟩

def allPairs : Select where
  items := [⟨.field ⟨"t", "a", .integer⟩, none⟩, ⟨.field ⟨"u", "b", .integer⟩, none⟩]
  sources := [⟨.table ⟨0⟩, none⟩, ⟨.table ⟨1⟩, none⟩]
  filter := none
  groupBy := []
  having := none
  orderBy := []

/-- The query of `allPairs`. -/
def pairsQuery : QueryTree :=
  .project allPairs.items (.join
    (.scan ⟨⟨0⟩, [0], [.qualified "t" "a"], .read, [], .absorbUnmatched, none, 0, none⟩)
    (.cached (.scan ⟨⟨1⟩, [0], [.qualified "u" "b"], .read, [], .absorbUnmatched, none, 0, none⟩)))

/-- One table has a row and the other one has none when the plan is opened. Before the first row is asked
for, another transaction commits a row of the other table. -/
def lateCommit : Reading where
  t := ⟨1⟩
  op := pairsQuery.operator
  db := History.final
    [.createTable "t" [⟨"a", .integer, true⟩], .createTable "u" [⟨"b", .integer, true⟩],
      .begin .readCommitted, .insertRow ⟨0⟩ ⟨0⟩ [.integer 1], .commit ⟨0⟩, .begin .readCommitted]
  between
    | 0 => [.begin .readCommitted, .insertRow ⟨2⟩ ⟨1⟩ [.integer 5], .commit ⟨2⟩]
    | _ => []

theorem fetch_built_lateCommit :
    ({} : Session).plan lateCommit.db.catalog (.select allPairs) = .ok lateCommit.op ∧
      lateCommit.db.Reachable ∧ lateCommit.db.Active lateCommit.t ∧
      (lateCommit.db.transaction lateCommit.t).isolation = .readCommitted ∧
      (lateCommit.op.openUnder lateCommit.t lateCommit.db).answer = .ok () ∧
      (∀ k, ∀ op ∈ lateCommit.between k, op.actor? ≠ some lateCommit.t) ∧
      ∃ q : QueryTree, lateCommit.op = q.operator ∧ ∀ k step, (lateCommit.fetch k).answer = .ok step →
        step ≠ .done → ∃ v, (lateCommit.fetch k).op.current = .ok v ∧
          q.Built lateCommit.t lateCommit.moment 0 (k + 1) v ∧
          (q.streamsJoin = false → q.Built lateCommit.t lateCommit.moment 0 0 v) := by
  have hplan : ({} : Session).plan lateCommit.db.catalog (.select allPairs) = .ok lateCommit.op := rfl
  have hdb : lateCommit.db.Reachable := ⟨_, rfl⟩
  have ht : lateCommit.db.Active lateCommit.t := ⟨by decide, rfl⟩
  have hopen : (lateCommit.op.openUnder lateCommit.t lateCommit.db).answer = .ok () := rfl
  have hothers : ∀ k, ∀ op ∈ lateCommit.between k, op.actor? ≠ some lateCommit.t := by
    intro k
    cases k with
    | zero => decide
    | succ k => exact nofun
  exact ⟨hplan, hdb, ht, rfl, hopen, hothers, fetch_built _ _ _ _ hplan hdb ht rfl hopen hothers⟩

/-- The first row that is delivered holds the value of a row that nobody had committed, or even inserted,
when the plan was opened. -/
theorem fetch_lateCommit :
    (lateCommit.fetch 0).answer = .ok .row ∧
      ((lateCommit.fetch 0).op.current >>= (·.values)) = .ok [.integer 1, .integer 5] ∧
      ∀ q : QueryTree, lateCommit.op = q.operator → ∀ v, (lateCommit.fetch 0).op.current = .ok v →
        ¬q.Built lateCommit.t lateCommit.moment 0 0 v := by
  refine ⟨toOption_eq_some.mp (by decide +kernel), toOption_eq_some.mp (by decide +kernel),
    fun q hq v _ => ?_⟩
  have hempty : (lateCommit.db.catalog.table ⟨1⟩).versions.size = 0 := by decide +kernel
  cases QueryTree.operator_injective hq
  rintro ⟨_, ⟨l, _, m, _, _, hm, ⟨j, hj, u, _, ⟨version, _, ⟨w, hw, _⟩, _⟩, _⟩, _⟩, _⟩
  have hzero : j = 0 := Nat.le_zero.mp (Nat.le_trans hj hm)
  subst hzero
  have hlt := (Array.getElem?_eq_some_iff.mp hw).1
  have hlt : version.rid.slot < (lateCommit.db.catalog.table ⟨1⟩).versions.size := hlt
  omega

end Reading

end SnapshotSql
