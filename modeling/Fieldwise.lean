import Fieldwise.Command
import Fieldwise.Expansion
import Fieldwise.Main
import Fieldwise.Survey
import Fieldwise.Proofs.NamedFields
import Fieldwise.Proofs.Placement
import Fieldwise.Proofs.Reading.Character
import Fieldwise.Proofs.Reading.Escape
import Fieldwise.Proofs.Reading.Mark
import Fieldwise.Proofs.Reading.Taking
import Fieldwise.Proofs.Reading.Nesting
import Fieldwise.Proofs.Writing
import Fieldwise.Proofs.Rereading
import Fieldwise.Proofs.Shapes
import Fieldwise.Proofs.Shrinking
import Fieldwise.Proofs.Typing
import Fieldwise.Proofs.Arguments
import Fieldwise.Proofs.FirstFault
import Fieldwise.Proofs.Disk
import Fieldwise.Proofs.SurveyRuns
import Fieldwise.Proofs.Reading.Following
import Fieldwise.Proofs.Reading.Scanning
import Fieldwise.Proofs.FieldNames
import Fieldwise.Proofs.ConstructorText
import Fieldwise.Proofs.ListingText
import Fieldwise.Proofs.Outlines
import Fieldwise.Proofs.WrittenTypes
import Fieldwise.Proofs.Annotations
import Fieldwise.Proofs.Casts
import Fieldwise.Proofs.KeptDeclaration
import Fieldwise.Proofs.Walks
import Fieldwise.Proofs.Regeneration
import Fieldwise.Proofs.Places
import Fieldwise.Proofs.Shifts
import Fieldwise.Proofs.Simulation
import Fieldwise.Proofs.SimulationExpressions
import Fieldwise.Proofs.SimulationItems
import Fieldwise.Proofs.Values
import Fieldwise.Proofs.OpaqueValues
import Fieldwise.Proofs.SimulationValues
import Fieldwise.Proofs.Locations
import Fieldwise.Proofs.ReportLines
import Fieldwise.Proofs.Closing
import Fieldwise.Proofs.ClosingTypes
import Fieldwise.Proofs.Roles
import Fieldwise.Proofs.ComputedMembers
import Fieldwise.Proofs.CallableBounds
import Fieldwise.Proofs.ValueSequels
import Fieldwise.Proofs.DirectiveLists
import Fieldwise.Proofs.TypeEnds
import Fieldwise.Proofs.TypePieces
import Fieldwise.Proofs.TypeTokens
import Fieldwise.Proofs.ValueTokens
import Fieldwise.Proofs.TypeArguments
import Fieldwise.Proofs.ValueRereading
import Fieldwise.Proofs.SplicedTokens
import Fieldwise.Proofs.DescriptorText
import Fieldwise.Proofs.ConfigLookup
import Fieldwise.Proofs.PathOrder
import Fieldwise.Proofs.CanonicalWalks
import Fieldwise.Proofs.CommaSequels
import Fieldwise.Proofs.CommaExpressions
import Fieldwise.Proofs.MemberLists
import Fieldwise.Proofs.NearestConfig
import Fieldwise.Proofs.Placeholders
