import ContractAudit.Highlight
import ContractAudit.Main
import ContractAudit.Session
import ContractAudit.Proofs.Containment
import ContractAudit.Proofs.RunAccount
import ContractAudit.Proofs.Independence
import ContractAudit.Proofs.JsonText
import ContractAudit.Proofs.LintJson
import ContractAudit.Proofs.GraphHistory
import ContractAudit.Proofs.DiscoveryOrder
import ContractAudit.Proofs.CanonicalRanges
import ContractAudit.Proofs.FileRef
import ContractAudit.Proofs.Locations
import ContractAudit.Proofs.ClosureGrowth
import ContractAudit.Proofs.Confinement
import ContractAudit.Proofs.LintGrammar
import ContractAudit.Proofs.LintReading
import ContractAudit.Proofs.LintReport
import ContractAudit.Proofs.Mentions
import ContractAudit.Proofs.Markers
import ContractAudit.Proofs.NormalizationFaults
import ContractAudit.Proofs.Remapping
import ContractAudit.Proofs.Resolution
import ContractAudit.Proofs.Within
import ContractAudit.Proofs.Itemwise
import ContractAudit.Proofs.Highlight
import ContractAudit.Proofs.VisibleSources
import ContractAudit.Proofs.ImportDirective
import ContractAudit.Proofs.PathEnds
import ContractAudit.Proofs.ReportLines
import ContractAudit.Proofs.RangeText
import ContractAudit.Proofs.LintLevels
import ContractAudit.Proofs.Buffers
import ContractAudit.Proofs.NormalForms
