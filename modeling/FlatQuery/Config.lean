import FlatQuery.FilePath

set_option autoImplicit false

/-! # Configuration

Where a database lies: a root directory, and below it the schema file and the directory of the data
files, unless their paths are absolute. -/

namespace FlatQuery

/-- The place of a database. -/
structure Config where
  root : String
  schemaFile : String
  dataDir : String
  deriving DecidableEq, Repr

namespace Config

/-- The usual layout below a root directory. -/
def ofRoot (root : String) : Config := ⟨root, "schema.txt", "data"⟩

/-- The path of the schema file. -/
def schemaPath (c : Config) : String := FilePath.join c.root c.schemaFile

/-- The path of the data directory. -/
def dataPath (c : Config) : String := FilePath.join c.root c.dataDir

end Config

end FlatQuery
