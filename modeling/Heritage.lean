import Heritage.Computation
import Heritage.Fixture.Hierarchy
import Heritage.Proofs.AccumulatedLists
import Heritage.Proofs.BrokenLine
import Heritage.Proofs.Closure
import Heritage.Proofs.DeclaredForm
import Heritage.Proofs.DirectoryLoader
import Heritage.Proofs.EmptyScalar
import Heritage.Proofs.EntryGrammar
import Heritage.Proofs.JoinedTexts
import Heritage.Proofs.LayeredQualifiers
import Heritage.Proofs.LevelChoice
import Heritage.Proofs.LineGroups
import Heritage.Proofs.LinearHierarchy
import Heritage.Proofs.NearestDeclaration
import Heritage.Proofs.Order
import Heritage.Proofs.Overlay
import Heritage.Proofs.PackageLadder
import Heritage.Proofs.PropertyPath
import Heritage.Proofs.Reading
import Heritage.Proofs.RepeatedOverlay
import Heritage.Proofs.RequestLog
import Heritage.Proofs.Retry
import Heritage.Proofs.SettingsLayers
import Heritage.Proofs.SharedPlace
