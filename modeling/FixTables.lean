import FixTables.Main
import FixTables.Proofs.Outcome
import FixTables.Proofs.References
import FixTables.Proofs.Unfolding
import FixTables.Proofs.TagPositions
import FixTables.Proofs.OrderedSearch
import FixTables.Proofs.Registration
import FixTables.Proofs.TextOrder
import FixTables.Proofs.Compilation
import FixTables.Proofs.Identifiers
import FixTables.Proofs.LayoutBuilding
import FixTables.Proofs.MessageLookup
import FixTables.Proofs.FieldKeys
import FixTables.Proofs.PropagationWalk
import FixTables.Proofs.Declarations
import FixTables.Proofs.ValidDictionary
import FixTables.Proofs.LengthPairs
import FixTables.Proofs.Partners
import FixTables.Proofs.IncrementalPairing
import FixTables.Proofs.CycleReports
import FixTables.Proofs.TextParts
import FixTables.Proofs.SourceReading
import FixTables.Proofs.GroupForests
import FixTables.Proofs.SourceParagraphs
import FixTables.Proofs.DeclarationLinks
import FixTables.Proofs.SourceTables
import FixTables.Proofs.MessageFrames
import FixTables.Proofs.Linking
import FixTables.Proofs.FlagErasure
import FixTables.Proofs.LinkedAlike
import FixTables.Proofs.CompiledAlike
import FixTables.Proofs.WrittenAlike
import FixTables.Proofs.SectionSearch
import FixTables.Proofs.Documentation
import FixTables.Proofs.DeclarationOrder
import FixTables.Proofs.LargerTables
import FixTables.Proofs.Extension
import FixTables.Proofs.FieldLocations
import FixTables.Proofs.LocatedMembers
import FixTables.Proofs.StrictAndLenient
import FixTables.Proofs.Misnaming
import FixTables.Proofs.FullLists
import FixTables.Proofs.LenientCompilation
import FixTables.Proofs.GroupTrees
import FixTables.Proofs.TableBounds
import FixTables.Proofs.GroupLookup
import FixTables.Proofs.Placeholders
import FixTables.Proofs.OrphanedReferences
import FixTables.Proofs.PlaceholderPositions
import FixTables.Proofs.TagTables
import FixTables.Proofs.TagLookup
import FixTables.Proofs.TypeIds
import FixTables.Proofs.SourceLines
import FixTables.Proofs.DeclaredNames
import FixTables.Proofs.CommentLines
import FixTables.Proofs.RegistryRuns
import FixTables.Proofs.IndexedRegistries
import FixTables.Proofs.SpelledTrees
import FixTables.Proofs.DeliveredEvents
import FixTables.Proofs.FilePlaces
import FixTables.Proofs.ArtifactWrites
import FixTables.Proofs.CommandRuns
import FixTables.Proofs.FirstPlaces
import FixTables.Proofs.PlacedMembers
import FixTables.Proofs.FirstMatches
import FixTables.Proofs.AccountedMembers
import FixTables.Proofs.WithoutGroups
import FixTables.Proofs.TypeIdRoundTrips
import FixTables.Proofs.IdentifierSearch
import FixTables.Proofs.FieldLeads
import FixTables.Proofs.Numerals
import FixTables.Proofs.FieldDeclarations
