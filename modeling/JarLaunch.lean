import JarLaunch.Child
import JarLaunch.CommandLine
import JarLaunch.Double.Basic
import JarLaunch.Double.Reading
import JarLaunch.Double.Shortest
import JarLaunch.Failure.Account
import JarLaunch.Failure.Basic
import JarLaunch.Failure.Fields
import JarLaunch.Handler
import JarLaunch.Launch
import JarLaunch.Launcher
import JarLaunch.Main
import JarLaunch.Options.Basic
import JarLaunch.Options.Usage
import JarLaunch.Path.Basic
import JarLaunch.Path.Links
import JarLaunch.Reading
import JarLaunch.Scenario
import JarLaunch.Spawn
import JarLaunch.Text.Basic
import JarLaunch.Text.Classes
import JarLaunch.Text.Printable
import JarLaunch.Text.Quoted
import JarLaunch.Text.Shell
import JarLaunch.Text.Utf8
import JarLaunch.Value
import JarLaunch.World
import JarLaunch.Proofs.Agenda
import JarLaunch.Proofs.Moves
import JarLaunch.Proofs.Course
import JarLaunch.Proofs.Delivery
import JarLaunch.Proofs.Pipes
import JarLaunch.Proofs.Reading
import JarLaunch.Proofs.Fate
import JarLaunch.Proofs.Effort
import JarLaunch.Proofs.Completion
import JarLaunch.Proofs.Likeness
import JarLaunch.Proofs.Settling
import JarLaunch.Proofs.Isolation
import JarLaunch.Proofs.Timeout
import JarLaunch.Proofs.Timeline
import JarLaunch.Proofs.Signals
import JarLaunch.Proofs.Reporting
import JarLaunch.Proofs.Pending
import JarLaunch.Proofs.Protocol
import JarLaunch.Proofs.Sharing
import JarLaunch.Proofs.Grammar
import JarLaunch.Proofs.Success
import JarLaunch.Proofs.Forwarding
import JarLaunch.Proofs.Status
import JarLaunch.Proofs.Output
import JarLaunch.Proofs.Prospect
import JarLaunch.Proofs.Verbosity
import JarLaunch.Proofs.Expiry
import JarLaunch.Proofs.Reassignment
import JarLaunch.Proofs.Lines
import JarLaunch.Proofs.Decoding
import JarLaunch.Proofs.Refusing
import JarLaunch.Proofs.ErrorStream
import JarLaunch.Proofs.Chunking
import JarLaunch.Proofs.Seams
import JarLaunch.Proofs.Segments
import JarLaunch.Proofs.Splitting
import JarLaunch.Proofs.Walking
import JarLaunch.Proofs.Beside
import JarLaunch.Proofs.Touring
import JarLaunch.Proofs.Spelling
import JarLaunch.Proofs.Replacing
