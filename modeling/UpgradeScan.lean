import UpgradeScan.Main
import UpgradeScan.Proofs.CommandLine.Status
import UpgradeScan.Proofs.Engine.FirstDefect
import UpgradeScan.Proofs.Files.Address
import UpgradeScan.Proofs.Files.Entry
import UpgradeScan.Proofs.Files.Excerpt
import UpgradeScan.Proofs.Path.Relative
import UpgradeScan.Proofs.Report.Markdown
import UpgradeScan.Proofs.Report.Passes
import UpgradeScan.Proofs.Report.Percentage
import UpgradeScan.Proofs.Report.Plain
import UpgradeScan.Proofs.Report.Reuse
import UpgradeScan.Proofs.Report.Split
import UpgradeScan.Proofs.Report.Statistics
import UpgradeScan.Proofs.Scan.Format
import UpgradeScan.Proofs.Scan.Rescan
import UpgradeScan.Proofs.Scan.Site
import UpgradeScan.Proofs.Report.Formats
import UpgradeScan.Proofs.Report.Halves
import UpgradeScan.Proofs.Settings
import UpgradeScan.Proofs.Scan.Folder
import UpgradeScan.Proofs.Configuration.Nearest
import UpgradeScan.Proofs.CommandLine.Spelling
import UpgradeScan.Proofs.NameList
import UpgradeScan.Proofs.Engine.Outline
import UpgradeScan.Proofs.Engine.Names
