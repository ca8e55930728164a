import ApiSurface.Main
import ApiSurface.Proofs.Outcomes
import ApiSurface.Proofs.InheritanceForest
import ApiSurface.Proofs.DeclarationOrder
import ApiSurface.Proofs.OrderFaults
import ApiSurface.Proofs.OthersAnywhere
import ApiSurface.Proofs.DeclaredBases
import ApiSurface.Proofs.TypeReading
import ApiSurface.Proofs.TypeTextMeaning
import ApiSurface.Proofs.NestedText
import ApiSurface.Proofs.TypeGrammar
import ApiSurface.Proofs.TypeMapping
import ApiSurface.Proofs.SignatureGrammar
import ApiSurface.Proofs.LanguageAgreement
import ApiSurface.Proofs.SeenSource
import ApiSurface.Proofs.SignatureReading
import ApiSurface.Proofs.LowercaseForms
import ApiSurface.Proofs.ParameterNotes
import ApiSurface.Proofs.FailedRuns
import ApiSurface.Proofs.PathNames
import ApiSurface.Proofs.TreeChanges
import ApiSurface.Proofs.WrittenPages
import ApiSurface.Proofs.PagePlaces
import ApiSurface.Proofs.SeparateLanguages
import ApiSurface.Proofs.KeptDocuments
import ApiSurface.Proofs.BracketNesting
import ApiSurface.Proofs.NestedSignatures
import ApiSurface.Proofs.PageSpans
import ApiSurface.Proofs.LinkedPages
import ApiSurface.Proofs.LinkedTypes
import ApiSurface.Proofs.SharedAnchors
import ApiSurface.Proofs.DeclaredNames
import ApiSurface.Proofs.OneLineTexts
import ApiSurface.Proofs.DeclaredMembers
import ApiSurface.Proofs.DataBases
import ApiSurface.Proofs.CodeBlocks
import ApiSurface.Proofs.BlockEnds
import ApiSurface.Proofs.SharedGuides
import ApiSurface.Proofs.TypeForms
import ApiSurface.Proofs.AngleBrackets
import ApiSurface.Proofs.SharedTypes
import ApiSurface.Proofs.FrontMatter
import ApiSurface.Proofs.GuideTitles
import ApiSurface.Proofs.DistinctAnchors
import ApiSurface.Proofs.BracketFaults
import ApiSurface.Proofs.ExactPieces
import ApiSurface.Proofs.StackPartners
import ApiSurface.Proofs.NameSpellings
import ApiSurface.Proofs.LosslessViews
import ApiSurface.Proofs.StringUnions
import ApiSurface.Proofs.CheckedReadings
import ApiSurface.Proofs.DirectoryPaths
import ApiSurface.Proofs.DirectoryPatterns
import ApiSurface.Proofs.DirectoryLoads
import ApiSurface.Proofs.VisitedClasses
import ApiSurface.Proofs.MappingCalls
