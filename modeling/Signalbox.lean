import Signalbox.Build.Workshop
import Signalbox.Main
import Signalbox.Office.Basic
import Signalbox.Proofs.Build.Deadline
import Signalbox.Proofs.Build.Local
import Signalbox.Proofs.Build.Routing
import Signalbox.Proofs.Interlocking.Along
import Signalbox.Proofs.Interlocking.Forecast
import Signalbox.Proofs.Interlocking.Granting
import Signalbox.Proofs.Interlocking.Headway
import Signalbox.Proofs.Interlocking.Joining
import Signalbox.Proofs.Interlocking.Names
import Signalbox.Proofs.Interlocking.Purging
import Signalbox.Proofs.Interlocking.Releasing
import Signalbox.Proofs.Interlocking.Reversed
import Signalbox.Proofs.Route.Canonical
import Signalbox.Proofs.Route.Objectives
import Signalbox.Proofs.Survey.Merging
import Signalbox.Proofs.Survey.Starting
import Signalbox.Proofs.Survey.Findings
import Signalbox.Proofs.Track.Nearest
import Signalbox.Proofs.Build.Ground
import Signalbox.Proofs.Marker.Export
import Signalbox.Proofs.Json.Forms
import Signalbox.Proofs.Track.Runs
import Signalbox.Proofs.Build.LifeCycle
import Signalbox.Proofs.Build.Exclusive
import Signalbox.Proofs.Office.Reservations
import Signalbox.Proofs.Office.Ticks
import Signalbox.Proofs.Office.Agreement
import Signalbox.Proofs.Network.Encoding
import Signalbox.Proofs.Office.Idle
import Signalbox.Proofs.Build.Reordered
import Signalbox.Proofs.Territory.Inside
import Signalbox.Proofs.Territory.Missing
import Signalbox.Proofs.Territory.Tickets
import Signalbox.Proofs.Territory.Walks
import Signalbox.Proofs.Route.Reckoning
