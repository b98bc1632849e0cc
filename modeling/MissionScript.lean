import MissionScript.Main
import MissionScript.Proofs.UnitTurns
import MissionScript.Proofs.BatchListings
import MissionScript.Proofs.ListingRun
import MissionScript.Proofs.MarkerRules
import MissionScript.Proofs.PairEncoding
import MissionScript.Proofs.ReferenceCounts
import MissionScript.Proofs.SpanTiling
import MissionScript.Proofs.UsageReport
import MissionScript.Proofs.SlotDeclarations
import MissionScript.Proofs.BlockIndent
import MissionScript.Proofs.PrintableLines
import MissionScript.Proofs.Yaml.ScalarReading
import MissionScript.Proofs.Yaml.EntryLexing
import MissionScript.Proofs.Yaml.EntryNodes
import MissionScript.Proofs.TablesRoundTrip
import MissionScript.Proofs.DecoderLocality
import MissionScript.Proofs.MergedUsage
import MissionScript.Proofs.JoinedUsage
import MissionScript.Proofs.DirectorySearch
import MissionScript.Proofs.RemovedFiles
import MissionScript.Proofs.BatchSummary
import MissionScript.Proofs.UnitBytes
import MissionScript.Proofs.CreatedDirectories
import MissionScript.Proofs.RepeatedBatch
import MissionScript.Proofs.SingleUnit
import MissionScript.Proofs.DroppedOperands
import MissionScript.Proofs.ReadBack
import MissionScript.Proofs.CleanedLines
import MissionScript.Proofs.ReferencePlaces
import MissionScript.Proofs.DecodedTokens
import MissionScript.Proofs.DecoderMessages
import MissionScript.Proofs.NumberBlocks
