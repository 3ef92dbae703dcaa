import SnapshotSql.Proofs.Session.System
/-! # Sessions and active transactions -/

namespace SnapshotSql

namespace Database

variable {db : Database}

end Database

/-- The number of the transaction that a session holds, if it holds one that has started. -/
def Session.number? (db : Database) (s : Session) : Option TxId := s.held.bind fun tx => db.number? tx.1

namespace System

variable {w : System}

end System

end SnapshotSql
