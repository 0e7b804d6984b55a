import Signalbox.Numeral.Binary32
import Signalbox.Time

/-!
# Settings

What a dispatch office can tune: how builds search and spend, and how long released track stays
closed.  Every setting has a default.  `BuildSettings.check` refuses settings that no build can run
with, the first fault in the order of the checks.
-/

set_option autoImplicit false

namespace Signalbox

/-- How a network is built. -/
structure BuildSettings where
  /-- Units of work a build may spend in one tick. -/
  stepBudget : UInt64 := 4096
  /-- How far around a marker its track is looked for. -/
  anchorRadius : UInt32 := 2
  /-- How far around a requester or a marker start cells are looked for. -/
  seedRadius : UInt32 := 4
  /-- How many missing switchers are reported at most. -/
  missingCap : UInt64 := 32
  /-- The speed limit, in cells per second, of every edge that is found. -/
  speedLimit : Binary32 := .nearest false 8 1
deriving DecidableEq

/-- How long track stays closed and when a signal shows caution. -/
structure HeadwaySettings where
  /-- Milliseconds for which released track is closed to others. -/
  headway : UInt64 := 5000
  /-- Blockers that all clear within so many milliseconds show caution instead of stop. -/
  cautionWindow : UInt64 := 10000
deriving DecidableEq

/-- All settings of a dispatch office. -/
structure Settings where
  build : BuildSettings := {}
  occupancy : HeadwaySettings := {}
deriving DecidableEq

/-- Why settings are refused. -/
inductive SettingsFault where
  | emptyStepBudget
  | speedNotPositive (speed : Binary32)
  | anchorBeyondSeed (anchor seed : UInt32)
deriving DecidableEq

def SettingsFault.message : SettingsFault → String
  | emptyStepBudget => "configuration error: step_budget_cells must be at least 1"
  | speedNotPositive speed =>
    "configuration error: default_speed_limit must be a positive number, got " ++ speed.text
  | anchorBeyondSeed anchor seed =>
    "configuration error: anchor_radius " ++ Decimal.ofNat anchor.toNat ++ " exceeds seed_radius "
      ++ Decimal.ofNat seed.toNat

/-- Settings a build can run with: the step budget is not empty, the speed limit is a positive
number, and anchors are looked for no further than seeds. -/
def BuildSettings.check (c : BuildSettings) : Except SettingsFault Unit :=
  if c.stepBudget = 0 then .error .emptyStepBudget
  else if !c.speedLimit.isFinite || !c.speedLimit.isPositive then
    .error (.speedNotPositive c.speedLimit)
  else if c.seedRadius < c.anchorRadius then
    .error (.anchorBeyondSeed c.anchorRadius c.seedRadius)
  else .ok ()

/-- Only the settings of a build can be at fault. -/
def Settings.check (c : Settings) : Except SettingsFault Unit := c.build.check

end Signalbox
