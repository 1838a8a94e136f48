import CalxMill.Lib.Exec
import CalxMill.Lib.ExtNum
import CalxMill.Gate.Run
import CalxMill.Gate.Outcomes
import CalxMill.Gate.Certified
import CalxMill.Gate.Errors
import CalxMill.Gate.Words
import CalxMill.Gate.ExitCodes
import CalxMill.Gate.Compose
import CalxMill.Gate.Override
import CalxMill.Gate.Fit
import CalxMill.Latency
import CalxMill.Nvidia.Census
import CalxMill.Nvidia.Pattern
import CalxMill.Nvidia.Sass
import CalxMill.Nvidia.Check
import CalxMill.Nvidia.SassTotal
import CalxMill.Nvidia.PyFmt
import CalxMill.Nvidia.MkTable
import CalxMill.Lib.Median
import CalxMill.Nvidia.Published
import CalxMill.Nvidia.CsvRoundTrip
import CalxMill.Nvidia.Rates
import CalxMill.Nvidia.Projection
import CalxMill.Nvidia.Projectable
import CalxMill.Lib.Tally
import CalxMill.Nvidia.DemandVector
import CalxMill.Nvidia.Additive
import CalxMill.Contention
import CalxMill.Lib.Capacity
import CalxMill.Occupancy
import CalxMill.Nvidia.Ptxas
import CalxMill.Nvidia.PtxasReports
import CalxMill.Lib.Search
import CalxMill.Nvidia.PatternLanguage
import CalxMill.Telemetry
import CalxMill.Nvidia.PatternPython
import CalxMill.Lib.Records
import CalxMill.Nvidia.CsvPython
import CalxMill.Nvidia.CsvClean
import CalxMill.Nvidia.TableRoundTrip
import CalxMill.Lib.Scan
import CalxMill.Throughput
import CalxMill.LatencyLaws
import CalxMill.Precision
import CalxMill.Nvidia.WarpOccupancy
import CalxMill.Lib.Munch
import CalxMill.Nvidia.HotLoop
import CalxMill.Nvidia.SassGrammar
import CalxMill.Nvidia.MixKernel
import CalxMill.Nvidia.SassReaders
import CalxMill.Nvidia.CensusFile
import CalxMill.Composition
import CalxMill.Lib.Overlap
import CalxMill.Overlap
import CalxMill.OccupancyPct
import CalxMill.RunClock
import CalxMill.Bottleneck
import CalxMill.Nvidia.SixDigits
import CalxMill.RegistryRows
import CalxMill.TeleFile
import CalxMill.Nvidia.Ncu
import CalxMill.Lib.Partition
import CalxMill.Nvidia.Aggregation
import CalxMill.Lib.Rulings
import CalxMill.Nvidia.Verify
import CalxMill.Lib.Ranking
import CalxMill.Nvidia.CensusMatch
import CalxMill.Nvidia.CheckReport
import CalxMill.Nvidia.ProjMeas
import CalxMill.Nvidia.Report
import CalxMill.Cli.Commands
import CalxMill.Cli.Footprint
import CalxMill.Cli.Session
import CalxMill.Cli.TeleRun
import CalxMill.Cli.Arbiter
import CalxMill.Cli.Launches
import CalxMill.Cli.Listing
import CalxMill.Cli.Pipeline
import CalxMill.Gate.Derivations
