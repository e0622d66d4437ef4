import TlpBridge.Engine.Bridge
import TlpBridge.Engine.Run
import TlpBridge.Iommu.InvalidationTags
import TlpBridge.Iommu.Smaps
import TlpBridge.Stream.Packet
import TlpBridge.Stream.Parameters
import TlpBridge.Proofs.Bridge.AtomicRuns
import TlpBridge.Proofs.Bridge.BridgeRuns
import TlpBridge.Proofs.Bridge.DmaHistory
import TlpBridge.Proofs.Bridge.MemoryExchanges
import TlpBridge.Proofs.Bridge.SequentialRuns
import TlpBridge.Proofs.Engine.EngineCalls
import TlpBridge.Proofs.Engine.HaltedRuns
import TlpBridge.Proofs.Engine.OrderlyRuns
import TlpBridge.Proofs.Engine.StoredState
import TlpBridge.Proofs.Engine.StrictBeats
import TlpBridge.Proofs.Engine.StrictCalls
import TlpBridge.Proofs.Engine.StrictRuns
import TlpBridge.Proofs.FromDevice.Acceptance
import TlpBridge.Proofs.FromDevice.AssembledPackets
import TlpBridge.Proofs.FromDevice.AtomicOperands
import TlpBridge.Proofs.FromDevice.CarriedPayloads
import TlpBridge.Proofs.FromDevice.DeviceBeats
import TlpBridge.Proofs.FromDevice.DmaPackets
import TlpBridge.Proofs.FromDevice.ServedKinds
import TlpBridge.Proofs.Iommu.CountedPages
import TlpBridge.Proofs.Iommu.HeldRanges
import TlpBridge.Proofs.Iommu.Invalidation
import TlpBridge.Proofs.Iommu.IovaRanges
import TlpBridge.Proofs.Iommu.KnownRanges
import TlpBridge.Proofs.Iommu.LivePins
import TlpBridge.Proofs.Iommu.MemoryListings
import TlpBridge.Proofs.Iommu.PhysicalPages
import TlpBridge.Proofs.Iommu.PinnedTables
import TlpBridge.Proofs.Iommu.RadixCalls
import TlpBridge.Proofs.Iommu.RadixListing
import TlpBridge.Proofs.Iommu.RadixPages
import TlpBridge.Proofs.Iommu.StablePages
import TlpBridge.Proofs.Iommu.TagHistory
import TlpBridge.Proofs.Iommu.TagRuns
import TlpBridge.Proofs.Memory.AtomicAccesses
import TlpBridge.Proofs.Memory.ByteAccesses
import TlpBridge.Proofs.Memory.ByteImages
import TlpBridge.Proofs.Memory.BytewiseAccesses
import TlpBridge.Proofs.Memory.MemoryAnswers
import TlpBridge.Proofs.Memory.PartialWrites
import TlpBridge.Proofs.Memory.TranslationEntries
import TlpBridge.Proofs.Memory.WholePages
import TlpBridge.Proofs.Memory.WrappedAddresses
import TlpBridge.Proofs.Mmio.AnsweredWidths
import TlpBridge.Proofs.Mmio.IssuedReads
import TlpBridge.Proofs.Mmio.MmioBeats
import TlpBridge.Proofs.Mmio.MmioLog
import TlpBridge.Proofs.Mmio.MmioPackets
import TlpBridge.Proofs.Mmio.MmioRuns
import TlpBridge.Proofs.Mmio.SendableRequests
import TlpBridge.Proofs.Reads.AnnouncedBytes
import TlpBridge.Proofs.Reads.CollectedAnswers
import TlpBridge.Proofs.Reads.Collecting
import TlpBridge.Proofs.Reads.CompletionHeaders
import TlpBridge.Proofs.Reads.DeviceSession
import TlpBridge.Proofs.Reads.FreeSlots
import TlpBridge.Proofs.Reads.HousedReads
import TlpBridge.Proofs.Reads.LinkRequests
import TlpBridge.Proofs.Reads.ReadDelivery
import TlpBridge.Proofs.Reads.ReceivedReads
import TlpBridge.Proofs.Reads.ResetDelivery
import TlpBridge.Proofs.Reads.SentBeats
import TlpBridge.Proofs.Reads.SlotAccounts
import TlpBridge.Proofs.Reads.SlotLedger
import TlpBridge.Proofs.Reads.SoundRuns
import TlpBridge.Proofs.Reads.SoundSessions
import TlpBridge.Proofs.Reads.SplitArithmetic
import TlpBridge.Proofs.Reads.SplitReads
import TlpBridge.Proofs.Reads.TakenAnswers
import TlpBridge.Proofs.Stream.FlitDwords
import TlpBridge.Proofs.Stream.PackedLanes
import TlpBridge.Proofs.Stream.PartSelects
import TlpBridge.Proofs.Tlp.ByteCounts
import TlpBridge.Proofs.Tlp.EnabledBytes
import TlpBridge.Proofs.Tlp.HeaderEncoding
import TlpBridge.Proofs.Tlp.NormalForms
import TlpBridge.Proofs.Tlp.StoredHeaders
import TlpBridge.Proofs.Tlp.UnreadableHeaders
import TlpBridge.Proofs.ToDevice.Beats
import TlpBridge.Proofs.ToDevice.DeviceStream
import TlpBridge.Proofs.ToDevice.FramedRuns
import TlpBridge.Proofs.ToDevice.FullBandwidth
import TlpBridge.Proofs.ToDevice.JitterFree
import TlpBridge.Proofs.ToDevice.Overtaking
import TlpBridge.Proofs.ToDevice.PacedBeats
import TlpBridge.Proofs.ToDevice.PacedRuns
import TlpBridge.Proofs.ToDevice.PacketBeats
import TlpBridge.Proofs.ToDevice.RequestOrder
import TlpBridge.Proofs.ToDevice.StockedQueues
import TlpBridge.Proofs.ToDevice.StreamSteps
import TlpBridge.Proofs.ToDevice.StreamedPackets
import TlpBridge.Proofs.Word.DwordImages
import TlpBridge.Proofs.Word.Fields
import TlpBridge.Proofs.Word.ImageBits
