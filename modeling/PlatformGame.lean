import PlatformGame.About
import PlatformGame.Files.Disk
import PlatformGame.Main
import PlatformGame.Proofs.Check.Violations
import PlatformGame.Proofs.Draft.Failures
import PlatformGame.Proofs.Draft.RoundTrip
import PlatformGame.Proofs.Parse.Completeness
import PlatformGame.Proofs.Parse.Soundness
import PlatformGame.Proofs.Program.Assets
import PlatformGame.Proofs.Program.Comments
import PlatformGame.Proofs.Program.Numbers
import PlatformGame.Proofs.Parse.Shape
import PlatformGame.Proofs.Parse.Layout
import PlatformGame.Proofs.Draft.Places
import PlatformGame.Proofs.Draft.Layout
import PlatformGame.Proofs.Parse.Inside
import PlatformGame.Proofs.Parse.Blocks
import PlatformGame.Proofs.Draft.Blocks
import PlatformGame.Proofs.Parse.Subtree
import PlatformGame.Proofs.Draft.Keys
import PlatformGame.Proofs.Draft.Order
import PlatformGame.Proofs.Number.Moderate
import PlatformGame.Proofs.Program.Success
import PlatformGame.Proofs.Game.Completion
import PlatformGame.Proofs.Check.Undeclared
import PlatformGame.Proofs.Program.Placements
import PlatformGame.Proofs.Program.Behaviour
import PlatformGame.Proofs.Text.Order
import PlatformGame.Proofs.Parse.Sentence
import PlatformGame.Proofs.CommandLine.Overwriting
import PlatformGame.Proofs.Parse.Reach
import PlatformGame.Proofs.Parse.Rejection
import PlatformGame.Proofs.Parse.Settled
import PlatformGame.Proofs.Check.Strictness
import PlatformGame.Proofs.Draft.Silence
import PlatformGame.Proofs.Draft.Patterns
import PlatformGame.Proofs.Draft.Warnings
import PlatformGame.Proofs.Source.Position
import PlatformGame.Proofs.Parse.Follow
import PlatformGame.Proofs.Parse.Endings
import PlatformGame.Proofs.Parse.Characters
import PlatformGame.Proofs.Text.Lines
import PlatformGame.Proofs.Source.Quoting
import PlatformGame.Proofs.Draft.Pointing
import PlatformGame.Proofs.Compile.Diagnostics
import PlatformGame.Proofs.Check.DefaultSprites
import PlatformGame.Proofs.Program.Registration
import PlatformGame.Proofs.Program.Progression
import PlatformGame.Proofs.Program.Appending
import PlatformGame.Proofs.Text.Literal
import PlatformGame.Proofs.Program.Minified
