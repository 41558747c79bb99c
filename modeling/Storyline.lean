import Storyline.CommandLine.Run
import Storyline.Compile
import Storyline.Decimal.Reading
import Storyline.Decimal.Text
import Storyline.Dump.Reading
import Storyline.Dump.Writing
import Storyline.Expr.Text
import Storyline.Json.Basic
import Storyline.Main
import Storyline.Node
import Storyline.Path
import Storyline.Proofs.Blocks.Crossing
import Storyline.Proofs.Blocks.Cuts
import Storyline.Proofs.Blocks.FinalStop
import Storyline.Proofs.Blocks.Flat
import Storyline.Proofs.Blocks.Reading
import Storyline.Proofs.Calls.Accounting
import Storyline.Proofs.Calls.Compiled
import Storyline.Proofs.Calls.Expressions
import Storyline.Proofs.Calls.Plans
import Storyline.Proofs.Calls.Rules
import Storyline.Proofs.Calls.Threads
import Storyline.Proofs.Chains.Compiled
import Storyline.Proofs.Chains.Linking
import Storyline.Proofs.Chains.Reading
import Storyline.Proofs.CommandLine.Agreement
import Storyline.Proofs.Definitions.Compiled
import Storyline.Proofs.Definitions.Labels
import Storyline.Proofs.Definitions.Linking
import Storyline.Proofs.Definitions.Noting
import Storyline.Proofs.Definitions.Sentinels
import Storyline.Proofs.Definitions.Settling
import Storyline.Proofs.Dump.Accepted
import Storyline.Proofs.Dump.RoundTrip
import Storyline.Proofs.Dump.Stopping
import Storyline.Proofs.Ends.Lens
import Storyline.Proofs.Ends.Outlets
import Storyline.Proofs.Ends.Resolved
import Storyline.Proofs.Flows.Closed
import Storyline.Proofs.Flows.Compiled
import Storyline.Proofs.Flows.Holding
import Storyline.Proofs.Flows.Linking
import Storyline.Proofs.Flows.Ties
import Storyline.Proofs.Flows.Waits
import Storyline.Proofs.Grammar.Expressions
import Storyline.Proofs.Grammar.Extent
import Storyline.Proofs.Grammar.Gives
import Storyline.Proofs.Grammar.Names
import Storyline.Proofs.Grammar.Rendering
import Storyline.Proofs.Grammar.Selectors
import Storyline.Proofs.Grammar.Takes
import Storyline.Proofs.Grammar.Threads
import Storyline.Proofs.Json.Spelling
import Storyline.Proofs.Linking
import Storyline.Proofs.Loops.Compiled
import Storyline.Proofs.Loops.Cycling
import Storyline.Proofs.Loops.Executions
import Storyline.Proofs.Loops.Linking
import Storyline.Proofs.Meaning.Backpatching
import Storyline.Proofs.Meaning.Compiled
import Storyline.Proofs.Meaning.Growth
import Storyline.Proofs.Meaning.Leading
import Storyline.Proofs.Meaning.Running
import Storyline.Proofs.Meaning.Sections
import Storyline.Proofs.Meaning.Walking
import Storyline.Proofs.Mistakes.Reading
import Storyline.Proofs.Names.Apart
import Storyline.Proofs.Names.Course
import Storyline.Proofs.Names.Duplicate
import Storyline.Proofs.Names.Footing
import Storyline.Proofs.Names.Linking
import Storyline.Proofs.Names.Parts
import Storyline.Proofs.Names.Region
import Storyline.Proofs.Names.Status
import Storyline.Proofs.Names.Steps
import Storyline.Proofs.Names.Walks
import Storyline.Proofs.Notices.Compiled
import Storyline.Proofs.Notices.Linking
import Storyline.Proofs.Notices.Missing
import Storyline.Proofs.Notices.Passing
import Storyline.Proofs.Notices.Reading
import Storyline.Proofs.Notices.Threads
import Storyline.Proofs.Options.Brackets
import Storyline.Proofs.Options.Choices
import Storyline.Proofs.Options.Clauses
import Storyline.Proofs.Options.Forward
import Storyline.Proofs.Options.Laying
import Storyline.Proofs.Options.Mirrored
import Storyline.Proofs.Options.Offering
import Storyline.Proofs.Options.Persisting
import Storyline.Proofs.Options.Plain
import Storyline.Proofs.Options.Prompts
import Storyline.Proofs.Options.Retained
import Storyline.Proofs.Options.Reversed
import Storyline.Proofs.Options.Room
import Storyline.Proofs.Options.Strings
import Storyline.Proofs.Options.Walking
import Storyline.Proofs.Options.Within
import Storyline.Proofs.Origins.Adding
import Storyline.Proofs.Origins.Compiled
import Storyline.Proofs.Origins.Linking
import Storyline.Proofs.Payloads.Compiled
import Storyline.Proofs.Payloads.Splices
import Storyline.Proofs.Payloads.Threads
import Storyline.Proofs.Places.Compiled
import Storyline.Proofs.Places.Linking
import Storyline.Proofs.Places.Reading
import Storyline.Proofs.Places.Threads
import Storyline.Proofs.Places.Unplaced
import Storyline.Proofs.Slots
import Storyline.Proofs.Store.Consistent
import Storyline.Proofs.Store.Fresh
import Storyline.Proofs.Store.Lasting
import Storyline.Proofs.Store.Shows
import Storyline.Proofs.Subroutines.Closed
import Storyline.Proofs.Subroutines.Tasks
import Storyline.Proofs.Switches.Compiled
import Storyline.Proofs.Targets.Compiled
import Storyline.Proofs.Targets.Known
import Storyline.Proofs.Targets.Linking
import Storyline.Proofs.Targets.Written
import Storyline.Proofs.Wording.Compiled
import Storyline.Proofs.Wording.Linking
import Storyline.Proofs.Wording.Outline
import Storyline.Proofs.Wording.Reading
import Storyline.Proofs.Wording.Threads
import Storyline.Proofs.Yields
import Storyline.Script.Expression
import Storyline.Script.Sign
import Storyline.Script.Terms
import Storyline.Script.Thread
import Storyline.Store.Basic
import Storyline.Story.Edit
import Storyline.Story.Json
import Storyline.Token
import Storyline.Toml.Reading
