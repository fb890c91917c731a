import Companion.CommandLine.Usage
import Companion.Main
import Companion.Proofs.PlanHistory
import Companion.Proofs.DeclarationJson
import Companion.Proofs.FileWrite
import Companion.Proofs.ModelDump
import Companion.Java.OffsetScan
import Companion.Proofs.Brackets
import Companion.Proofs.MaskedText
import Companion.Proofs.OffsetConstructors
import Companion.Proofs.ScanPanic
import Companion.Proofs.ConstructorScan
import Companion.Proofs.SourceConstructors
import Companion.Proofs.SourceScan
import Companion.Proofs.RunReport
import Companion.Proofs.OutputPaths
import Companion.Proofs.Overwrites
import Companion.Proofs.Segments
import Companion.Proofs.Annotations
import Companion.Java.ByteMasking
import Companion.Proofs.ByteMasking
import Companion.Proofs.Lexemes
import Companion.Proofs.Bystanders
import Companion.Proofs.Outlines
import Companion.Proofs.StandardTemplates
import Companion.Proofs.PassedText
import Companion.Proofs.CompanionMembers
import Companion.Proofs.CompanionScan
import Companion.Proofs.ExtendsClause
import Companion.Proofs.MadeDirectories
import Companion.Proofs.Containment
import Companion.Proofs.ModelOrder
import Companion.Proofs.ScannedNames
import Companion.Proofs.RootedNames
import Companion.Proofs.JsonGrammar
import Companion.Proofs.JsonScalars
import Companion.Proofs.JsonNumbers
import Companion.Proofs.JsonItems
import Companion.Proofs.JsonSkip
import Companion.Proofs.JsonRecords
import Companion.Proofs.ModelText
import Companion.Proofs.RunFailures
import Companion.Proofs.DryRun
import Companion.Proofs.TagPolicies
import Companion.Proofs.JsonNesting
import Companion.Proofs.ModelLines
import Companion.Proofs.DiscoveredFiles
import Companion.Proofs.CompanionLines
import Companion.Proofs.Matching
import Companion.Proofs.PatternText
import Companion.Proofs.NamingStems
import Companion.Proofs.DefaultNaming
import Companion.Proofs.SuperclassClause
import Companion.Proofs.ConstructorHeaders
import Companion.Proofs.TypeSpacing
import Companion.Proofs.ParameterLayout
import Companion.Proofs.ParameterAnnotations
import Companion.Proofs.TextBlocks
import Companion.Proofs.TagParams
import Companion.Proofs.TagLayout
import Companion.Proofs.FirstDeclarations
import Companion.Proofs.MaskedBytes
import Companion.Proofs.TypeErasure
import Companion.Proofs.GlobNames
import Companion.Proofs.GlobSteps
import Companion.Proofs.GlobPaths
import Companion.Proofs.LiteralInputs
import Companion.Proofs.NormalLayout
import Companion.Proofs.BracketOffsets
