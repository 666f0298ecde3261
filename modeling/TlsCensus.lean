import TlsCensus.Bytes
import TlsCensus.Text.Blank
import TlsCensus.Digest.Sha256
import TlsCensus.Digest.Blake3
import TlsCensus.Digest
import TlsCensus.Seen
import TlsCensus.Outcome
import TlsCensus.Window
import TlsCensus.Window.Recorder
import TlsCensus.Address
import TlsCensus.Address.Block
import TlsCensus.Address.Permutation
import TlsCensus.Address.Sweep
import TlsCensus.Probe.Progress
import TlsCensus.Capture
import TlsCensus.Certificate.KeyInfo
import TlsCensus.Harvest
import TlsCensus.Probe.Capability
import TlsCensus.Probe.Connection
import TlsCensus.Probe.Peer
import TlsCensus.Probe.Poller
import TlsCensus.Probe.Dialogue
import TlsCensus.Certificate.Der
import TlsCensus.Certificate.Oid
import TlsCensus.Certificate.Moment
import TlsCensus.Certificate
import TlsCensus.Certificate.PublicKey
import TlsCensus.Handshake.ServerFlight
import TlsCensus.Handshake.Client
import TlsCensus.Probe.Scan
import TlsCensus.Store.Export
import TlsCensus.Text.Json
import TlsCensus.Triage
import TlsCensus.Main
import TlsCensus.Proofs.Network
import TlsCensus.Proofs.Permutation
import TlsCensus.Proofs.Blocks
import TlsCensus.Proofs.Sweep
import TlsCensus.Proofs.Shards
import TlsCensus.Proofs.CaptureGrammar
import TlsCensus.Proofs.History
import TlsCensus.Proofs.Transactions
import TlsCensus.Proofs.Deposits
import TlsCensus.Proofs.FirstSights
import TlsCensus.Proofs.Meeting
import TlsCensus.Proofs.Settling
import TlsCensus.Proofs.Multiplexing
import TlsCensus.Proofs.Probing
import TlsCensus.Proofs.SteadyRounds
import TlsCensus.Proofs.Gathering
import TlsCensus.Proofs.Balance
import TlsCensus.Proofs.SoloScans
import TlsCensus.Proofs.CaptureGrowth
import TlsCensus.Proofs.FinalAnswers
import TlsCensus.Proofs.SharedSights
import TlsCensus.Proofs.RowStreams
import TlsCensus.Proofs.RepeatedTransfers
import TlsCensus.Proofs.Coherence
import TlsCensus.Proofs.Conduct
import TlsCensus.Proofs.StoredRows
import TlsCensus.Proofs.StuckWalks
import TlsCensus.Proofs.Exports
import TlsCensus.Proofs.ReportMembers
import TlsCensus.Proofs.ResultCounts
import TlsCensus.Proofs.HarvestOrder
import TlsCensus.Proofs.LostOutcomes
import TlsCensus.Proofs.WalkBounds
import TlsCensus.Proofs.Deadlines
import TlsCensus.Proofs.CommitPolicy
import TlsCensus.Proofs.HarvestCounters
import TlsCensus.Proofs.CaptureDamage
import TlsCensus.Proofs.AdditionOrder
import TlsCensus.Proofs.CaptureViews
import TlsCensus.Proofs.Spelling
import TlsCensus.Proofs.KeySizes
import TlsCensus.Proofs.DigestText
import TlsCensus.Proofs.DottedText
import TlsCensus.Proofs.ListingText
import TlsCensus.Proofs.Listings
import TlsCensus.Proofs.CidrText
import TlsCensus.Proofs.RangeLines
import TlsCensus.Proofs.RunLedger
import TlsCensus.Proofs.CutStreams
import TlsCensus.Proofs.Covering
import TlsCensus.Proofs.Prefixes
