import Arbor.Geometry.Reflection
import Arbor.Grammar.Rename
import Arbor.Json.Plant
import Arbor.Plant.Grow
import Arbor.Proofs.Geometry.Inside
import Arbor.Proofs.Grammar.Agreement
import Arbor.Proofs.Grammar.Counting
import Arbor.Proofs.Grammar.Derivation
import Arbor.Proofs.Grammar.History
import Arbor.Proofs.Grammar.Terminals
import Arbor.Proofs.Json.RoundTrip
import Arbor.Proofs.Plant.Balance
import Arbor.Proofs.Plant.Ceiling
import Arbor.Proofs.Plant.FirstDefect
import Arbor.Proofs.Plant.Growth
import Arbor.Proofs.Plant.Monotone
import Arbor.Proofs.Plant.Renaming
import Arbor.Proofs.Plant.Shapes
import Arbor.Proofs.Plant.Validity
import Arbor.Proofs.Turtle.Cancellation
import Arbor.Proofs.Turtle.ClosedPairs
import Arbor.Proofs.Turtle.Concatenation
import Arbor.Proofs.Turtle.FlippedWalk
import Arbor.Proofs.Turtle.ForestWalk
import Arbor.Proofs.Turtle.MirrorWalk
import Arbor.Proofs.Turtle.Nesting
import Arbor.Proofs.Turtle.Numbering
import Arbor.Proofs.Turtle.Outcome
import Arbor.Proofs.Turtle.Placeholders
import Arbor.Proofs.Turtle.RootWalk
import Arbor.Proofs.Turtle.Rounds
import Arbor.Proofs.Turtle.Runs
import Arbor.Proofs.Turtle.StraightWalk
import Arbor.Turtle.Forest
import Arbor.Turtle.RootPath
import Arbor.Turtle.Straight
import Arbor.Turtle.Tokens
