import Signalbox.Csv.Tables
import Signalbox.Storage.Folders

/-!
# The archive of networks

An archive keeps the latest network of every region in a folder that bears the name of the region,
as a file of its nodes and a file of its edges.
-/

set_option autoImplicit false

namespace Signalbox

/-- Why a network could not be kept: its folder, or one of its tables, could not be written. -/
inductive ArchiveFault where
  | folder (f : StorageFault)
  | table (f : StorageFault)
deriving DecidableEq

def ArchiveFault.message : ArchiveFault → String
  | folder f => "I/O error: " ++ f.message
  | table f => "CSV write error: " ++ f.message

/-- The folder in which networks are kept. -/
structure Archive where
  contents : Folders := .empty

namespace Archive

/-- The file of the nodes of a region. -/
def nodeFile : String := "nodes.csv"

/-- The file of the edges of a region. -/
def edgeFile : String := "edges.csv"

/-- Write both tables into a folder; the nodes stay if the edges cannot be written. -/
def saveTables (t : Folders) (path : StoragePath) (g : Network) : Folders × Option ArchiveFault :=
  match t.write (path.file nodeFile) (Csv.writeTable g.nodeTable) with
  | .error f => (t, some (.table f))
  | .ok t =>
    match t.write (path.file edgeFile) (Csv.writeTable g.edgeTable) with
    | .error f => (t, some (.table f))
    | .ok t => (t, none)

def save (a : Archive) (r : RegionId) (g : Network) : Archive × Option ArchiveFault :=
  match StoragePath.ofText r.text with
  | .error f => (a, some (.folder f))
  | .ok path =>
    match a.contents.makeAll path.base path.names with
    | (t, some f) => (⟨t⟩, some (.folder f))
    | (t, none) =>
      let (t, fault) := saveTables t path g
      (⟨t⟩, fault)

def file? (a : Archive) (r : RegionId) (name : String) : Option String :=
  match StoragePath.ofText r.text with
  | .error _ => none
  | .ok path => a.contents.read? (path.file name)

end Archive

end Signalbox
