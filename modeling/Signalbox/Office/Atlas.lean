import Signalbox.Build.Job

/-!
# The atlas of networks

The atlas holds the latest network of every region that was built, with a report on its build.  A
new build of a region takes the place of the one before; its report says whether the nodes differ.

* `Atlas.edition?_publish` : publishing changes the entry of one region only.
-/

set_option autoImplicit false

namespace Signalbox

/-- What is known about a published build. -/
structure EditionReport where
  region : RegionId
  builtAt : Timestamp
  nodes : Nat
  edges : Nat
  signature : Signature
  /-- Whether the nodes are not those of the build before. -/
  changed : Bool
  /-- Junctions where several origins meet and no switcher stands. -/
  missing : List Cell
  survey : SurveyReport
  /-- The units of work that were spent. -/
  processed : Nat
deriving DecidableEq

/-- A published network and the report on its build. -/
structure Edition where
  network : Network
  report : EditionReport

/-- The latest edition of every region. -/
structure Atlas where
  editions : Std.ExtTreeMap RegionId Edition := ∅

namespace Atlas

def empty : Atlas := {}

instance : Inhabited Atlas := ⟨empty⟩

def edition? (a : Atlas) (r : RegionId) : Option Edition := a.editions[r]?

def network? (a : Atlas) (r : RegionId) : Option Network := (a.edition? r).map Edition.network

def report? (a : Atlas) (r : RegionId) : Option EditionReport := (a.edition? r).map Edition.report

/-- Whether a network has other nodes than the latest one of its region. -/
def differs (a : Atlas) (r : RegionId) (g : Network) : Bool :=
  (a.report? r).all fun old => old.signature ≠ g.signature

/-- The report on a build that is published now. -/
def reportOf (a : Atlas) (b : BuiltRegion) (now : Timestamp) : EditionReport where
  region := b.region
  builtAt := now
  nodes := b.network.nodeCount
  edges := b.network.edgeCount
  signature := b.network.signature
  changed := a.differs b.region b.network
  missing := b.missing
  survey := b.survey
  processed := b.processed

/-- Make a build the latest of its region. -/
def publish (a : Atlas) (b : BuiltRegion) (now : Timestamp) : Atlas × EditionReport :=
  let report := a.reportOf b now
  (⟨a.editions.insert b.region ⟨b.network, report⟩⟩, report)

def remove (a : Atlas) (r : RegionId) : Atlas := ⟨a.editions.erase r⟩

/-- The regions that have an edition, in ascending order. -/
def regions (a : Atlas) : List RegionId := a.editions.keys

theorem edition?_publish (a : Atlas) (b : BuiltRegion) (now : Timestamp) (r : RegionId) :
    (a.publish b now).1.edition? r =
      if b.region = r then some ⟨b.network, (a.publish b now).2⟩ else a.edition? r := by
  by_cases h : b.region = r
  · subst h; simp [publish, edition?]
  · simp [publish, edition?, Std.ExtTreeMap.getElem?_insert, h]

end Atlas

end Signalbox
