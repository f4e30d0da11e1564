import GraphQL.Deferred
import GraphQL.TypeSystem.Edit
import GraphQL.Schema.Build
import GraphQL.Schema.Bodies
import GraphQL.Execution.Request
import GraphQL.Validation.KnownTypeNames
import GraphQL.Description.Whole
import GraphQL.Description.Report
import GraphQL.Proofs.Execution.Conformance
import GraphQL.Proofs.Results
import GraphQL.Proofs.Schema.Built
import GraphQL.Proofs.Execution.Causes
import GraphQL.Proofs.Execution.Faults
import GraphQL.Proofs.Execution.Nulls
import GraphQL.Proofs.Schema.Additions
import GraphQL.Proofs.Schema.ExtensionOrder
import GraphQL.Proofs.Schema.Covers
import GraphQL.Proofs.Schema.Passes
import GraphQL.Proofs.Schema.Specifications
import GraphQL.Proofs.Schema.Incremental
import GraphQL.Proofs.Schema.ByName
import GraphQL.Proofs.Schema.DefinitionOrder
import GraphQL.Proofs.Schema.Protection
import GraphQL.Proofs.Schema.Undecorated
import GraphQL.Proofs.Schema.Lasting
import GraphQL.Proofs.Schema.Resolvers
import GraphQL.Proofs.Schema.Upholding
import GraphQL.Proofs.Schema.Provenance
import GraphQL.Proofs.Schema.Mentions
import GraphQL.Proofs.Schema.DraftMentions
import GraphQL.Proofs.Schema.UndefinedNames
import GraphQL.Proofs.Schema.LocalFailures
import GraphQL.Proofs.Validation.KnownTypeNames
import GraphQL.Proofs.Execution.Gathering
import GraphQL.Proofs.Execution.Inlining
import GraphQL.Proofs.Schema.Implementing
import GraphQL.Proofs.Execution.FiniteInputs
import GraphQL.Proofs.Execution.Defaults
import GraphQL.Proofs.Execution.OldQueries
import GraphQL.Proofs.Schema.PossibleTypes
import GraphQL.Proofs.Schema.RootTypes
import GraphQL.Proofs.Execution.MoreFuel
import GraphQL.Proofs.Execution.Termination
import GraphQL.Proofs.Execution.Failures
import GraphQL.Proofs.Execution.SiblingOrder
import GraphQL.Proofs.Execution.ReadingBack
import GraphQL.Proofs.Execution.FittingInputs
import GraphQL.Proofs.Execution.LiteralValues
import GraphQL.Proofs.Execution.NonNullPlaces
import GraphQL.Proofs.Execution.UnsetVariables
import GraphQL.Proofs.Execution.ScanReports
import GraphQL.Proofs.Schema.Touched
import GraphQL.Proofs.Schema.HeldBodies
import GraphQL.Proofs.Schema.Decorated
import GraphQL.Proofs.Schema.InstalledHooks
import GraphQL.Proofs.Schema.MissingInterfaces
import GraphQL.Proofs.Schema.DeclaredArguments
import GraphQL.Proofs.Schema.CoveredDrafts
import GraphQL.Proofs.Schema.Descriptions
import GraphQL.Proofs.Schema.Registration
import GraphQL.Proofs.Json.CanonicalKeys
import GraphQL.Proofs.TypeSystem.EnumValues
import GraphQL.Proofs.TypeSystem.BuiltinScalars
import GraphQL.Proofs.Validation.UnknownNames
import GraphQL.Proofs.Suggestion.RollingRows
import GraphQL.Proofs.Suggestion.Choice
import GraphQL.Proofs.Diagnostics.Histories
import GraphQL.Proofs.Deferred.Histories
import GraphQL.Proofs.Deferred.LaterHandles
