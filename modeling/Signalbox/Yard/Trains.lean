import Signalbox.Office.Traffic
import Signalbox.Text.Blank
import Signalbox.Yard.Dice
import Signalbox.Yard.Layout

/-!
# Trains in the yard

In every round each train that is not on its way throws the dice for a stop to go to, and asks for
the route.  If it is granted, the train is on its way for the travel time of the route; when it has
arrived, it gives its track free.
-/

set_option autoImplicit false

namespace Signalbox.Yard

def stops : List String := ["depot", "central", "north-1", "spur-end"]

def trainCount : Nat := 4

def rounds : Nat := 12

/-- The milliseconds between two rounds. -/
def roundTime : Nat := 4000

def stop (i : Nat) : NodeId := ⟨stops[i % stops.length]?.getD ""⟩

/-- A train, where it is, and if it is on its way, on which route and until when. -/
structure Train where
  name : HolderId
  place : NodeId
  journey : Option (Route × Timestamp) := none

/-- The trains at the start, each at a stop of its own. -/
def trains : List Train :=
  (List.range trainCount).map fun i => { name := ⟨"T" ++ Decimal.ofNat i⟩, place := stop i }

/-- What happens in the yard: the claims, the dice, what is told, and how many requests were granted
and how many were held. -/
structure Scene where
  traffic : Traffic
  dice : Dice
  lines : List String := []
  granted : Nat := 0
  held : Nat := 0

namespace Scene

def tell (s : Scene) (now : Timestamp) (text : String) : Scene :=
  { s with lines := s.lines ++
      ["[" ++ Text.right 6 (Decimal.ofNat now.toNat) ++ " ms] " ++ text] }

/-- A train that has arrived gives its track free. -/
def arrive (s : Scene) (now : Timestamp) (t : Train) (route : Route) : Scene × Train :=
  let (l, freed) := (s.traffic.ledger region).releaseAll t.name now
  let s := { s with traffic := s.traffic.setLedger region l }
  match route.nodes.getLast? with
  | none => (s, { t with journey := none })
  | some goal =>
    (s.tell now (t.name.text ++ " arrived at " ++ goal.text ++ ", freed " ++ Decimal.ofNat freed),
      { t with place := goal, journey := none })

/-- The travel time of a route, in a word. -/
def travelTime (a : Atlas) (route : Route) : UInt64 :=
  let edges := route.edges.filterMap fun k => (a.network? region).bind fun g => g.edgeWith? k
  (edges.map fun e => UInt64.ofNat e.travelTime).foldl (· + ·) 0

/-- A train asks for a route. -/
def ask (a : Atlas) (s : Scene) (now : Timestamp) (t : Train) (goal : NodeId) (route : Route) :
    Except TrafficFault (Scene × Train) := do
  let (traffic, d) ← s.traffic.reserve a region t.name route now
  let s := { s with traffic }
  let told := t.name.text ++ " " ++ d.aspect.text
  if d.allowed then
    let time := travelTime a route
    let s := s.tell now (told ++ " → " ++ goal.text ++ " (" ++ Decimal.ofNat route.totalLength
      ++ " cells, " ++ Decimal.ofNat time.toNat ++ " ms)")
    return ({ s with granted := s.granted + 1 }, { t with journey := some (route, now.plus time) })
  else
    let s := s.tell now (told ++ " for " ++ goal.text ++ ": " ++ Decimal.ofNat d.blockers.length
      ++ " blocker(s), earliest " ++ Decimal.ofNat d.earliest.toNat ++ " ms")
    return ({ s with held := s.held + 1 }, t)

/-- A train that is nowhere bound throws for a stop and asks for the route to it. -/
def depart (a : Atlas) (s : Scene) (now : Timestamp) (t : Train) :
    Except TrafficFault (Scene × Train) :=
  let (i, dice) := s.dice.throw stops.length
  let s := { s with dice }
  let goal := stop i
  if goal = t.place then .ok (s, t)
  else
    match a.route? region {} t.place goal with
    | none => .ok (s, t)
    | some route => s.ask a now t goal route

/-- The turn of a train. -/
def turn (a : Atlas) (s : Scene) (now : Timestamp) (t : Train) :
    Except TrafficFault (Scene × Train) :=
  match t.journey with
  | none => s.depart a now t
  | some (route, arrives) =>
    if now < arrives then .ok (s, t)
    else
      let (s, t) := s.arrive now t route
      s.depart a now t

/-- The turns of several trains. -/
def turns (a : Atlas) (now : Timestamp) (s : Scene) : List Train →
    Except TrafficFault (Scene × List Train)
  | [] => .ok (s, [])
  | t :: ts => do
    let (s, t) ← s.turn a now t
    let (s, ts) ← turns a now s ts
    return (s, t :: ts)

/-- The round of a number; at its end, claims that no longer matter are forgotten. -/
def round (a : Atlas) (p : Scene × List Train) (n : Nat) :
    Except TrafficFault (Scene × List Train) := do
  let now := Timestamp.ofNat (n * roundTime)
  let (s, ts) ← turns a now p.1 p.2
  let (l, _) := (s.traffic.ledger region).purge now
  return ({ s with traffic := s.traffic.setLedger region l }, ts)

def play (a : Atlas) (s : Scene) : Except TrafficFault Scene := do
  let (s, _) ← (List.range rounds).foldlM (round a) (s, trains)
  return s

end Scene

end Signalbox.Yard
