import ManifestRules.Files.Tree
import ManifestRules.Main
import ManifestRules.Proofs.History
import ManifestRules.Proofs.History.Agreement
import ManifestRules.Proofs.History.Replay
import ManifestRules.Proofs.History.Order
import ManifestRules.Proofs.Merging
import ManifestRules.Proofs.Growth
import ManifestRules.Proofs.Visibility
import ManifestRules.Proofs.History.Cause
import ManifestRules.Proofs.History.Completeness
import ManifestRules.Proofs.Coverage
import ManifestRules.Proofs.Generation
import ManifestRules.Proofs.Decoding
import ManifestRules.Proofs.Limit
import ManifestRules.Proofs.DistinctKeys
import ManifestRules.Proofs.Termination
import ManifestRules.Proofs.Guard
import ManifestRules.Proofs.Bystander
import ManifestRules.Proofs.Pointwise
import ManifestRules.Proofs.Joining
import ManifestRules.Proofs.Erasure
import ManifestRules.Proofs.Answers
import ManifestRules.Proofs.Kinds
import ManifestRules.Proofs.Framing
import ManifestRules.Proofs.Rows
import ManifestRules.Proofs.Slack.Cursor
import ManifestRules.Proofs.Slack.Scalar
import ManifestRules.Value.Equality
import ManifestRules.Proofs.RoundTrip
import ManifestRules.Proofs.Overlay
import ManifestRules.Proofs.Strictness
import ManifestRules.Proofs.InMemory
import ManifestRules.Proofs.Validation
import ManifestRules.Proofs.KeyPath
import ManifestRules.Proofs.Repetition
import ManifestRules.Proofs.Layers
import ManifestRules.Proofs.FragmentPattern
import ManifestRules.Proofs.PatternWalk
import ManifestRules.Proofs.Chaining
import ManifestRules.Proofs.Sparing
import ManifestRules.Proofs.EntryOrder
import ManifestRules.Proofs.QueryGrammar
import ManifestRules.Proofs.Naming
import ManifestRules.Proofs.Walking
import ManifestRules.Proofs.Selection
import ManifestRules.Proofs.Navigation
import ManifestRules.Proofs.Refusal
import ManifestRules.Proofs.Spelling
import ManifestRules.Proofs.Fragments
import ManifestRules.Proofs.Outline
import ManifestRules.Proofs.Manifests
import ManifestRules.Proofs.Quoting
import ManifestRules.Proofs.Ending
import ManifestRules.Proofs.Indexing
