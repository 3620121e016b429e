import Offside.Journal
import Offside.CommandLine.System
import Offside.Session
import Offside.Proofs.Advancing
import Offside.Proofs.Excerpt
import Offside.Proofs.Scan.Grammar
import Offside.Proofs.Scan.Recovery
import Offside.Proofs.Scan.LineEnding
import Offside.Proofs.Scan.Composition
import Offside.Proofs.Scan.Newlines
import Offside.Proofs.Scan.Reports
import Offside.Proofs.Scan.Remaking
import Offside.Proofs.Scan.Sequence
import Offside.Proofs.Scan.TrailingBlanks
import Offside.Proofs.Layout.Printing
import Offside.Proofs.Layout.Rendering
import Offside.Proofs.Layout.Gaps
import Offside.Proofs.Layout.Outline
import Offside.Proofs.Layout.TabStops
import Offside.Proofs.CommandLine
import Offside.Proofs.Session
import Offside.Proofs.Journal
import Offside.Proofs.Listing
