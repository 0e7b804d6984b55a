import Signalbox.Json.Types
import Signalbox.Office.Desk
import Signalbox.Yard.Trains

/-!
# A walk through the yard

The walk builds the network of the yard tick by tick, answers some questions about routes, and lets
trains contend for the track.  All that it tells is a list of lines, so that it can be checked
without a console.
-/

set_option autoImplicit false

namespace Signalbox.Yard

/-! ## Settings -/

/-- Why a walk does not take place. -/
inductive Fault where
  | reading (file : String)
  | parsing (file : String)
  | validating (file : String) (e : SettingsFault)
  | markers (e : LoadFault)
  | start (e : BuildFault)
  | notBuilt
  | traffic (e : TrafficFault)

def Fault.message : Fault → String
  | reading file => "reading " ++ file
  | parsing file => "parsing " ++ file
  | validating file _ => "validating " ++ file
  | markers e => e.message
  | start e => e.message
  | notBuilt => "yard graph missing after build"
  | traffic e => e.message

/-- The settings in a file, given its text if it can be read. -/
def settings (file : String) (text : Option String) : Except Fault Settings :=
  match text with
  | none => .error (.reading file)
  | some text =>
    match (Json.read? text : Option Settings) with
    | none => .error (.parsing file)
    | some c =>
      match c.check with
      | .error e => .error (.validating file e)
      | .ok () => .ok c

/-! ## Lines -/

/-- A line that is told; the end of the build is told with the time it took. -/
inductive Line where
  | text (s : String)
  | built (ticks : Nat)

/-- A line as it is shown, given how long the build took. -/
def Line.render (seconds : Option String) : Line → String
  | text s => s
  | built ticks =>
    let head := "Build finished in " ++ Decimal.ofNat ticks ++ " ticks"
    match seconds with
    | none => head
    | some t => head ++ " (" ++ t ++ " s)"

/-- What a walk tells, what it complains about, and what it leaves in the archive. -/
structure Transcript where
  lines : List Line
  complaints : List String
  archive : Archive

/-- The folder in which networks are kept. -/
def outputFolder : String := "output/yard"

/-! ## The build -/

def seed : Nat := 7

def opening (c : Settings) (t : Track) (ms : MarkerRoll) : List Line :=
  [.text "=== yard — rail dispatch walkthrough ===",
    .text ("Trains: " ++ Decimal.ofNat trainCount ++ "  |  Rounds: " ++ Decimal.ofNat rounds
      ++ "  |  Headway: " ++ Decimal.ofNat c.occupancy.headway.toNat ++ " ms  |  Seed: "
      ++ Decimal.ofNat seed),
    .text "",
    .text ("Track: " ++ Decimal.ofNat t.size ++ " cells, " ++ Decimal.ofNat ms.size ++ " markers")]

/-- What is told before a tick. -/
def statusLine (tick : Nat) (s : JobProgress) : Line :=
  .text ("  tick " ++ Text.right 3 (Decimal.ofNat tick) ++ "  " ++ Text.left 11 s.phase.text
    ++ " visited=" ++ Text.left 5 (Decimal.ofNat s.visited)
    ++ " queue=" ++ Text.left 4 (Decimal.ofNat s.queued)
    ++ " nodes=" ++ Decimal.ofNat s.nodesFound)

/-- What is told of an event, unless it is a complaint. -/
def eventLine? : DeskEvent → Option Line
  | .published r =>
    some (.text ("Published " ++ r.region.text ++ ": " ++ Decimal.ofNat r.nodes ++ " nodes, "
      ++ Decimal.ofNat r.edges ++ " edges, signature " ++ r.signature.text))
  | .failed r e => some (.text ("Build of " ++ r.text ++ " failed: " ++ e.message))
  | .saveFailed _ _ => none

/-- The complaint of an event, if it is one. -/
def complaint? : DeskEvent → Option String
  | .saveFailed r f => some ("snapshot of " ++ r.text ++ " not saved: " ++ f.message)
  | _ => none

/-- The build, from a tick on until the desk is idle: the desk, the lines, the complaints, and the
number of ticks. -/
def watch (b : Allowance) (tick : Nat) (d : Desk) : Desk × List Line × List String × Nat :=
  if d.isIdle = false ∧ 0 < b.maxUnits then
    let t := d.tick b (.ofNat tick)
    let (e, lines, complaints, ticks) := watch b (tick + 1) t.1
    (e, ((d.status? region).map (statusLine tick)).toList ++ t.2.filterMap eventLine? ++ lines,
      t.2.filterMap complaint? ++ complaints, ticks)
  else (d, [], [], tick)
termination_by (d.stagesLeft, d.stageWork)
decreasing_by
  rename_i h
  rw [Prod.lex_def]
  exact Desk.closer_tick h.2 h.1

/-! ## Routes -/

/-- The routes that are asked for. -/
def queries : List (String × String × RouteOptions) :=
  [("depot", "central", {}),
    ("depot", "north-1", {}),
    ("north-1", "spur-end", { objective := .travelTime }),
    ("depot", "north-1", { avoid := .ofList [(⟨"j-west"⟩ : NodeId)] })]

/-- The answer to a question about a route. -/
def queryLine (a : Atlas) (q : String × String × RouteOptions) : Line :=
  let (source, target, o) := q
  let answer := match a.route? region o ⟨source⟩ ⟨target⟩ with
    | none => "unreachable"
    | some r =>
      Text.left 9 (Decimal.ofNat r.totalLength) ++ " " ++ Text.left 8 (Decimal.ofNat r.cost) ++ " "
        ++ String.intercalate " → " (r.nodes.map Ident.text)
  .text (Text.left 10 source ++ " " ++ Text.left 10 target ++ " " ++ answer)

/-- What is told of missing switchers and routes. -/
def queryLines (a : Atlas) : List Line :=
  (a.missing region).map (fun p => .text ("  missing switcher at " ++ p.text))
    ++ [.text "",
      .text (Text.left 10 "From" ++ " " ++ Text.left 10 "To" ++ " " ++ Text.left 9 "Length" ++ " "
        ++ Text.left 8 "Cost" ++ " Route"),
      .text (String.ofList (List.replicate 60 '-'))]
    ++ queries.map (queryLine a)
    ++ [.text ""]

/-! ## The walk -/

/-- The archive of a desk that has one. -/
def archiveOf : Keeper → Archive
  | .archive a => a
  | .nobody | .broken _ | .other _ => {}

def walk (c : Settings) : Except Fault Transcript := do
  let ms ← markers.mapError Fault.markers
  let desk : Desk := { track, markers := ms, settings := c.build, keeper := .archive {} }
  let desk ← (desk.start region .whole).mapError Fault.start
  let (desk, lines, complaints, ticks) := watch (.units c.build.stepBudget.toNat) 0 desk
  let atlas := desk.atlas
  if (atlas.edition? region).isNone then throw .notBuilt
  let scene : Scene := { traffic := { settings := c.occupancy }, dice := .ofSeed (.ofNat seed) }
  let scene ← (scene.play atlas).mapError Fault.traffic
  return {
    lines := opening c track ms ++ lines
      ++ [.built ticks,
        .text ("  snapshot written to " ++ outputFolder ++ "/" ++ region.text ++ "/")]
      ++ queryLines atlas ++ scene.lines.map Line.text
      ++ [.text "",
        .text ("Reservations granted: " ++ Decimal.ofNat scene.granted ++ "  |  held at signal: "
          ++ Decimal.ofNat scene.held),
        .text ("Live claims at end: "
          ++ Decimal.ofNat (scene.traffic.ledger region).liveCount)]
    complaints
    archive := archiveOf desk.keeper }

end Signalbox.Yard
