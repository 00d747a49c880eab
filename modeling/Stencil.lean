import Stencil.Config.Json
import Stencil.Function.Host
import Stencil.Proofs.Outcome
import Stencil.Proofs.Pieces
import Stencil.Session
import Stencil.Proofs.Scan
import Stencil.Proofs.Assembly
import Stencil.Proofs.Rules
import Stencil.Proofs.Semantics
import Stencil.Proofs.Depth
import Stencil.Proofs.Acceptance
import Stencil.Proofs.Precedence
import Stencil.Proofs.Display
import Stencil.Proofs.Abort
import Stencil.Proofs.Nesting
import Stencil.Proofs.Limit
import Stencil.Proofs.Strictness
import Stencil.Proofs.Paths
import Stencil.Proofs.RootKeys
import Stencil.Proofs.Canonical
import Stencil.Proofs.Conversion
import Stencil.Proofs.Thousands
import Stencil.Proofs.Separator
import Stencil.Proofs.Rereading
import Stencil.Proofs.Places
import Stencil.Proofs.TimeTexts
import Stencil.Proofs.Histories
import Stencil.Proofs.Spellings
import Stencil.Proofs.Composition
import Stencil.Proofs.Access
import Stencil.Proofs.Clocks
import Stencil.Proofs.Positions
import Stencil.Proofs.Timestamps
import Stencil.Proofs.NumericTimes
import Stencil.Proofs.Unfilled
import Stencil.Proofs.Rerounding
import Stencil.Proofs.Spans
import Stencil.Proofs.Parallel
import Stencil.Proofs.Spacing
import Stencil.Proofs.Faults
import Stencil.Proofs.Backslashes
import Stencil.Proofs.ZoneNames
import Stencil.Proofs.NumberLiterals
