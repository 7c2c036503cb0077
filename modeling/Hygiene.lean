import Hygiene.Bug.Footer
import Hygiene.Bug.Rule
import Hygiene.Changeset
import Hygiene.Check.Preset
import Hygiene.CommandLine.Command
import Hygiene.Config.File
import Hygiene.Disk
import Hygiene.Glob.Match
import Hygiene.Gn.Report
import Hygiene.Main
import Hygiene.Newline
import Hygiene.Outcome.Display
import Hygiene.Proofs.Check.NoMixing
import Hygiene.Proofs.Gn.Item
import Hygiene.Proofs.Gn.Records
import Hygiene.Proofs.Run.Reading
import Hygiene.Proofs.Run.Restrict
import Hygiene.Run.Host
import Hygiene.Source
import Hygiene.Proofs.Outcome.Encoding
import Hygiene.Proofs.Config.Files
import Hygiene.Proofs.Path
import Hygiene.Proofs.Disk
import Hygiene.Proofs.Config.Nearest
import Hygiene.Proofs.CommandLine.Arguments
import Hygiene.Proofs.CommandLine.Root
import Hygiene.Proofs.Gn.Move
import Hygiene.Proofs.Gn.Truncation
import Hygiene.Proofs.Gn.Character
import Hygiene.Proofs.Gn.Seam
import Hygiene.Proofs.Gn.Classes
import Hygiene.Proofs.Run.Selection
import Hygiene.Proofs.Bug.Footer
import Hygiene.Proofs.Regex.Match
import Hygiene.Proofs.Regex.Reader
import Hygiene.Proofs.Bug.Reference
import Hygiene.Proofs.Bug.Suggestion
import Hygiene.Proofs.Check.SingleNewline
import Hygiene.Proofs.Outcome.Sort
import Hygiene.Proofs.CommandLine.Listed
import Hygiene.Proofs.Glob.Match
import Hygiene.Proofs.Glob.Reader
import Hygiene.Proofs.Source.Exclusion
import Hygiene.Proofs.Gn.ListLiteral
import Hygiene.Proofs.Gn.Family
