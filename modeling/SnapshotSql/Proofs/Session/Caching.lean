import SnapshotSql.Proofs.Query.Caching
import SnapshotSql.Proofs.Session.System
/-! # Sessions with and without buffers -/

namespace SnapshotSql

namespace Session

/-- The session with joins that buffer, or with joins that do not. -/
def caching (b : Bool) (s : Session) : Session :=
  { s with options := { s.options with cacheInner := b } }

variable {s : Session} {db : Database}

private theorem collectValues_alike {stmt : Statement} (rows : Array (List Value)) {v w : RowView}
    (step : Step) (h : v.Alike w) :
    collectValues stmt db rows v step = collectValues stmt db rows w step := by
  simp only [collectValues, h.copy]

private theorem answer_uncached {t : TxHandle} {q : QueryTree} (query : Select) (hq : q.Fresh)
    (hq' : q.uncached.Fresh) (hread : ∀ s ∈ q.scans, s.Readable (db.reader t)) (h : db.Active t) :
    (drive (.select query) q.uncached.operator t db).answer.toOption =
      (drive (.select query) q.operator t db).answer.toOption := by
  rw [answer_drive_select query hq' h, answer_drive_select query hq h]
  have hrows := QueryTree.completed_uncached q hread
  generalize q.uncached.completed (db.reader t) = x at hrows
  generalize q.completed (db.reader t) = y at hrows
  cases hrows with
  | none => rfl
  | @some rs rs' halike =>
    simp only [Option.bind_some]
    rw [Paired.foldlM (A := RowView.Alike) (fun rows {_ _} step => collectValues_alike rows step) halike]

theorem ready_caching (b : Bool) (h : s.Ready db) : (s.caching b).Ready db := h

private theorem bind_ok {ε α β : Type} (a : α) (f : α → Option β) :
    (Except.ok a : Except ε α).toOption.bind f = f a := rfl

private theorem bind_error {ε α β : Type} (e : ε) (f : α → Option β) :
    (Except.error e : Except ε α).toOption.bind f = none := rfl

private theorem result_select {t : TxHandle} {db' : Database} (query : Select) (h : s.Ready db)
    (hentered : s.entered db = (t, db')) :
    (s.execute (.select query) db).result.toOption =
      (Plan.ofSelect db.catalog s.options.planner query).toOption.bind fun p =>
        (p.tree db.catalog s.options.policy).toOption.bind fun q =>
          (drive (.select query) q.operator t db').answer.toOption := by
  rw [result_select_eq query h hentered]
  cases Plan.ofSelect db.catalog s.options.planner query with
  | error e =>
    rw [bind_mapError_error, bind_error]
    rfl
  | ok p =>
    rw [bind_mapError_ok, bind_ok]
    cases p.tree db.catalog s.options.policy with
    | error e =>
      rw [bind_mapError_error, bind_error]
      rfl
    | ok q => rw [bind_mapError_ok, bind_ok]

/-- A session answers a query with buffers and without them alike, unless it fails either way. -/
theorem result_caching (events : List Event) {i : Nat} {s : Session}
    (hs : (System.after events).sessions[i]? = some s) (query : Select) :
    ((s.caching true).execute (.select query) (System.after events).db).result.toOption =
      ((s.caching false).execute (.select query) (System.after events).db).result.toOption := by
  have hvalid := System.valid_after events
  have hready := hvalid.ready s (List.mem_of_getElem? hs)
  have hformed := Database.formed_of_reachable hvalid.reachable
  generalize (System.after events).db = db at hready hformed
  obtain ⟨t, db', hentered, hactive, hcatalog⟩ := exists_entered hready
  rw [result_select query (ready_caching true hready) hentered,
    result_select query (ready_caching false hready) hentered]
  have hplan : Plan.ofSelect db.catalog { s.options.planner with cacheInner := false } query =
      (Plan.ofSelect db.catalog { s.options.planner with cacheInner := true } query).map
        (Plan.uncached db.catalog) := Plan.ofSelect_uncached query
  have htrue : (s.caching true).options.planner = { s.options.planner with cacheInner := true } := rfl
  have hfalse : (s.caching false).options.planner =
    { s.options.planner with cacheInner := false } := rfl
  rw [htrue, hfalse, hplan]
  cases hp : Plan.ofSelect db.catalog { s.options.planner with cacheInner := true } query with
  | error e => rfl
  | ok p =>
    have hreads := Plan.reads_ofSelect query hp
    have hreads' : (p.uncached db.catalog).Reads := by
      rw [hp] at hplan
      exact Plan.reads_ofSelect query hplan
    have htree := Plan.tree_uncached (c := db.catalog) s.options.policy hreads
    have hpolicy : ∀ b, (s.caching b).options.policy = s.options.policy := fun _ => rfl
    rw [Except.map, bind_ok, bind_ok, hpolicy, hpolicy, htree]
    cases hq : p.tree db.catalog s.options.policy with
    | error e => rw [Except.map, bind_error]
    | ok q =>
      rw [hq] at htree
      rw [Except.map, bind_ok, bind_ok]
      have hread : ∀ scan ∈ q.scans, scan.Readable (db'.reader t) := by
        intro scan hscan
        obtain ⟨_, _, _, hcreate⟩ := Plan.create_of_mem_scans hreads hq hscan
        rw [← hcatalog] at hcreate hformed
        exact TableScan.readable_of_fits (Database.length_values hformed) (TableScan.fits_create hcreate)
      exact (answer_uncached query (Plan.readOnly_tree hreads hq).1
        (Plan.readOnly_tree hreads' htree).1 hread hactive).symm

def twoTables : List Event :=
  [.connect {}, .operate (.createTable "t" [⟨"a", .integer, true⟩]),
    .operate (.createTable "u" [⟨"a", .integer, true⟩]), .operate (.begin .readCommitted),
    .operate (.insertRow ⟨0⟩ ⟨0⟩ [.integer 1]), .operate (.insertRow ⟨0⟩ ⟨1⟩ [.integer 1]),
    .operate (.commit ⟨0⟩), .execute 0 .begin]

def agreeing : Select where
  items := [⟨.field ⟨"t", "a", .integer⟩, none⟩, ⟨.field ⟨"u", "a", .integer⟩, none⟩]
  sources := [⟨.table ⟨0⟩, none⟩, ⟨.table ⟨1⟩,
    some (.comparison .eq (.field ⟨"t", "a", .integer⟩) (.field ⟨"u", "a", .integer⟩))⟩]
  filter := none
  groupBy := []
  having := none
  orderBy := []

theorem result_caching_twoTables :
    (System.after twoTables).sessions[0]? = some ⟨{}, some (⟨1⟩, .explicit)⟩ ∧
      ((caching true ⟨{}, some (⟨1⟩, .explicit)⟩).execute (.select agreeing)
        (System.after twoTables).db).result.toOption =
      ((caching false ⟨{}, some (⟨1⟩, .explicit)⟩).execute (.select agreeing)
        (System.after twoTables).db).result.toOption := by
  have hsession : (System.after twoTables).sessions[0]? = some ⟨{}, some (⟨1⟩, .explicit)⟩ :=
    rfl
  exact ⟨hsession, result_caching twoTables hsession agreeing⟩

end Session

end SnapshotSql
