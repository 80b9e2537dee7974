import PackageLint.FileTree.Memory
import PackageLint.Main
import PackageLint.Pass.Effects
import PackageLint.Pass.Options
import PackageLint.Proofs.AllowLists
import PackageLint.Proofs.CheckCodes
import PackageLint.Proofs.Climbs
import PackageLint.Proofs.DeclaredPlaces
import PackageLint.Proofs.EntryFormats
import PackageLint.Proofs.Executables
import PackageLint.Proofs.ExitCodes
import PackageLint.Proofs.FindingOrder
import PackageLint.Proofs.FindingPlaces
import PackageLint.Proofs.FlowFiles
import PackageLint.Proofs.FlowMarks
import PackageLint.Proofs.FolderMappings
import PackageLint.Proofs.FormatFindings
import PackageLint.Proofs.FullAllowLists
import PackageLint.Proofs.GlobbedTargets
import PackageLint.Proofs.HoistedOverrides
import PackageLint.Proofs.ImportKeys
import PackageLint.Proofs.JoinedTasks
import PackageLint.Proofs.JoinedTexts
import PackageLint.Proofs.LeafFailures
import PackageLint.Proofs.LineComments
import PackageLint.Proofs.LoadedManifests
import PackageLint.Proofs.LogRuns
import PackageLint.Proofs.MissingFiles
import PackageLint.Proofs.ModuleStatements
import PackageLint.Proofs.NearestManifests
import PackageLint.Proofs.NodeFindings
import PackageLint.Proofs.NullKeys
import PackageLint.Proofs.PublishedPlaces
import PackageLint.Proofs.RelocatedPasses
import PackageLint.Proofs.ReorderedSubpaths
import PackageLint.Proofs.RepeatedFindings
import PackageLint.Proofs.ResolvedTargets
import PackageLint.Proofs.Schedules
import PackageLint.Proofs.SettingRuns
import PackageLint.Proofs.ShownPlaces
import PackageLint.Proofs.SoftenedMappings
import PackageLint.Proofs.SuggestedAddresses
import PackageLint.Proofs.SuggestedExtensions
import PackageLint.Proofs.TreeContracts
import PackageLint.Proofs.TriedFiles
import PackageLint.Proofs.UnreachableKeys
import PackageLint.Proofs.WalkedFiles
import PackageLint.Proofs.WrittenTrees
