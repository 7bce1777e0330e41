import CarCare.Calendar
import CarCare.CommandLine.Arguments
import CarCare.CommandLine.Exit
import CarCare.CommandLine.Loader
import CarCare.CommandLine.Resolver
import CarCare.Config
import CarCare.Config.Logging
import CarCare.Config.Registry
import CarCare.Description
import CarCare.Desk
import CarCare.Error
import CarCare.Field
import CarCare.Hierarchy.Directory
import CarCare.Hierarchy.Lookup
import CarCare.Hierarchy.Rows
import CarCare.Hierarchy.Scope
import CarCare.Hierarchy.Tables
import CarCare.Instruction
import CarCare.Json.Reader
import CarCare.Json.Writer
import CarCare.Level
import CarCare.Main
import CarCare.Number.Binary64
import CarCare.Number.Shortest
import CarCare.Proofs.Hierarchy.Ancestry
import CarCare.Proofs.Hierarchy.Branches
import CarCare.Proofs.Hierarchy.Listing
import CarCare.Proofs.Hierarchy.Placement
import CarCare.Proofs.Hierarchy.TreePaths
import CarCare.Proofs.Keys
import CarCare.Proofs.Resolution.Layers
import CarCare.Proofs.Resolution.Preview
import CarCare.Proofs.Resolution.Provenance
import CarCare.Proofs.Resolution.Requests
import CarCare.Proofs.Resolution.Sections
import CarCare.Proofs.Store.Reached
import CarCare.Proofs.Store.Rows
import CarCare.Proofs.Store.Write
import CarCare.Provider
import CarCare.Resolution.Effective
import CarCare.Resolution.Preview
import CarCare.Resolution.Reader
import CarCare.Retry
import CarCare.Samples.Hierarchy
import CarCare.Samples.Instructions
import CarCare.Schema
import CarCare.Schema.Rule
import CarCare.Section
import CarCare.Service
import CarCare.Session
import CarCare.Settings
import CarCare.Snapshot
import CarCare.Store
import CarCare.Store.Change
import CarCare.Store.Column
import CarCare.Store.Draft
import CarCare.Store.Row
import CarCare.Text.Blank
import CarCare.Text.DecimalDigit
import CarCare.Text.Digits
import CarCare.Text.Integer
import CarCare.Text.Quoted
import CarCare.Text.UpperCase
import CarCare.Transaction
import CarCare.Tree
import CarCare.Tree.Assembly
import CarCare.Uuid
import CarCare.Value
import CarCare.Yaml.BlockScalar
import CarCare.Yaml.Cursor
import CarCare.Yaml.Lexer
import CarCare.Yaml.Node
import CarCare.Yaml.Plain
import CarCare.Yaml.QuotedScalar
import CarCare.Yaml.Reader
import CarCare.Yaml.Scalar
import CarCare.Yaml.Token
import CarCare.Proofs.Store.Move
import CarCare.Proofs.Store.Soundness
import CarCare.Proofs.Store.Lifecycle
import CarCare.Proofs.Resolution.Composition
import CarCare.Proofs.Resolution.Isolation
import CarCare.Proofs.Schema.Accepted
import CarCare.Proofs.Resolution.Editing
import CarCare.Proofs.Store.Deletion
import CarCare.Proofs.Store.Presence
import CarCare.Proofs.Schema.SectionPayload
import CarCare.Proofs.Store.Faults
import CarCare.Proofs.Store.Refusals
import CarCare.Proofs.Store.UnitOfWork
import CarCare.Proofs.Hierarchy.Owner
import CarCare.Proofs.Store.Ownership
import CarCare.Proofs.Transaction.Segments
import CarCare.Proofs.Hierarchy.Subtree
import CarCare.Proofs.Resolution.Rearranging
import CarCare.Proofs.Schema.FixedPoints
import CarCare.Proofs.Schema.KeyByKey
import CarCare.Proofs.Schema.Overriding
import CarCare.Proofs.Store.Fitting
import CarCare.Proofs.Store.Cloning
import CarCare.Proofs.Hierarchy.Assembly
import CarCare.Proofs.Hierarchy.Linking
import CarCare.Proofs.Hierarchy.Pruning
import CarCare.Proofs.Hierarchy.Selection
import CarCare.Proofs.Resolution.Inherited
import CarCare.Proofs.Hierarchy.Joins
import CarCare.Proofs.Store.CustomerFilters
import CarCare.Proofs.Store.Declaration
import CarCare.Proofs.Store.FieldPatches
import CarCare.Proofs.Store.SectionPatches
import CarCare.Proofs.Store.SectionOutcomes
import CarCare.Proofs.Hierarchy.Ancestors
import CarCare.Proofs.Store.KeptNames
import CarCare.Proofs.Samples.Hierarchy
import CarCare.Proofs.Samples.Loading
import CarCare.Proofs.Json.Tokens
import CarCare.Proofs.Json.RoundTrip
import CarCare.Proofs.CommandLine.ResolverExits
import CarCare.Proofs.Provider.LifeCycle
import CarCare.Proofs.Config.Limits
import CarCare.Proofs.Config.Escapes
import CarCare.Proofs.Config.Credentials
import CarCare.Proofs.Config.Address
import CarCare.Proofs.Provider.Retrying
import CarCare.Proofs.Desk.SectionAgreement
