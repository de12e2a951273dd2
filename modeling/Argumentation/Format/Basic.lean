import Argumentation.Format.Apx
import Argumentation.Format.Tgf

/-!
# Instance formats

The formats in which instances and updates are written.
-/

namespace Argumentation

/-- A format of instances and updates. -/
inductive InstanceFormat where
  | apx
  | tgf
  deriving DecidableEq

namespace InstanceFormat

/-- The formats. -/
def all : List InstanceFormat := [.apx, .tgf]

/-- The name of a format. -/
def name : InstanceFormat -> String
  | .apx => "apx"
  | .tgf => "tgf"

/-- The format with this name. -/
def ofName? (name : String) : Option InstanceFormat :=
  all.find? fun candidate => candidate.name = name

/-- Reads an instance. -/
def read : InstanceFormat -> List Text.Line -> Format.Reading
  | .apx => Format.Apx.read
  | .tgf => Format.Tgf.read

/-- Reads an update line. -/
def readUpdate : InstanceFormat -> String -> Except Report (List (Patch String))
  | .apx => Format.Apx.readUpdate
  | .tgf => Format.Tgf.readUpdate

end InstanceFormat

end Argumentation
