import NoticeScan.CommandLine.Run
import NoticeScan.Config
import NoticeScan.Main
import NoticeScan.Proofs.Delivery
import NoticeScan.Proofs.ScanRun
import NoticeScan.Proofs.Attribution
import NoticeScan.Proofs.Sound
import NoticeScan.Scan.Findings
import NoticeScan.Verdict
import NoticeScan.Proofs.Verdict
import NoticeScan.Proofs.Marks
import NoticeScan.Proofs.Fits
import NoticeScan.Proofs.Frames
import NoticeScan.Proofs.Built
import NoticeScan.Proofs.Pieces
import NoticeScan.Proofs.Parts
import NoticeScan.Proofs.Window
import NoticeScan.Proofs.WholeMatches
import NoticeScan.Proofs.Positions
import NoticeScan.Proofs.Interruptions
import NoticeScan.Proofs.FreeBlanks
import NoticeScan.Proofs.Construction
import NoticeScan.Proofs.FileRuns
import NoticeScan.Proofs.RulesFiles
import NoticeScan.Proofs.Recognition
import NoticeScan.Proofs.Signature
import NoticeScan.Proofs.Classes
import NoticeScan.Proofs.Endless
import NoticeScan.Proofs.Tight
import NoticeScan.Proofs.Coalescing
import NoticeScan.Proofs.StrayBytes
import NoticeScan.Proofs.KnownOwners
import NoticeScan.Proofs.NormalTexts
import NoticeScan.Proofs.RoundTrip
import NoticeScan.Proofs.Splitting
import NoticeScan.Proofs.Relining
import NoticeScan.Proofs.Ordering
import NoticeScan.Proofs.EarlyStop
import NoticeScan.Proofs.OwnerTails
import NoticeScan.Proofs.EmptyMatches
import NoticeScan.Proofs.LicenseLabels
import NoticeScan.Proofs.Reports
import NoticeScan.Proofs.Records
import NoticeScan.Proofs.Endings
import NoticeScan.Proofs.Building
import NoticeScan.Proofs.Rewriting
import NoticeScan.Proofs.PatternGrammar
