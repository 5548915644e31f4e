import FlatQuery.Config
import FlatQuery.Plan.Run
import FlatQuery.Planner
import FlatQuery.Sql.Reading

set_option autoImplicit false

/-! # Databases

A database is a directory of flat files with a description of their tables. It owns the catalog, so
the aliases that one query introduces are there for the next. -/

namespace FlatQuery

/-- An opened database. -/
structure Database where
  config : Config
  catalog : Catalog
  deriving DecidableEq, Repr

namespace Database

/-- A database without tables. -/
def empty (config : Config) : Database := ⟨config, Catalog.empty config.dataPath⟩

/-- Opens a database: reads its schema file. -/
def openAt (fs : FileStore) (config : Config) : Except Error Database :=
  match (Catalog.empty config.dataPath).loadFile fs config.schemaPath with
  | (.ok _, catalog) => .ok ⟨config, catalog⟩
  | (.error e, _) => .error e

/-- Plans a query text. No data file is read before the plan is run. -/
def query (db : Database) (text : String) : Except Error Plan × Database :=
  match Sql.read text with
  | .error e => (.error e, db)
  | .ok statement =>
    let (plan, catalog) := db.catalog.plan statement
    (plan, { db with catalog })

/-- Runs a query text and writes its rows to a sink, one a line. Yields their number. -/
def execute (db : Database) (fs : FileStore) (text : String) (k : Sink) :
    Except Error Nat × Sink × Database :=
  match db.query text with
  | (.error e, db) => (.error e, k, db)
  | (.ok plan, db) =>
    let (outcome, k, _) := (Run.start plan).dump fs k
    (outcome, k, db)

end Database

end FlatQuery
