import Fgds.Lib.CInt
import Fgds.Lib.Tiling
import Fgds.Lib.Overlay
import Fgds.Lib.Ledger
import Fgds.Lib.Alloc
import Fgds.Lib.Runs
import Fgds.Lib.Percent
import Fgds.Lib.ExchangeSort
import Fgds.Lib.Deferred
import Fgds.Lib.Decimal
import Fgds.Lib.Digits
import Fgds.Lib.HalfEven
import Fgds.Device
import Fgds.Xfer
import Fgds.XferSafety
import Fgds.Uring
import Fgds.XferPartition
import Fgds.Async
import Fgds.Pipeline
import Fgds.Storage
import Fgds.ReadWrite
import Fgds.Transfer
import Fgds.Leftovers
import Fgds.Stream
import Fgds.ShortResults
import Fgds.PartialSubmit
import Fgds.Footprint
import Fgds.Copier
import Fgds.Refusal
import Fgds.Concurrent
import Fgds.Regmem
import Fgds.OpenClose
import Fgds.Lifecycle
import Fgds.Balance
import Fgds.Release
import Fgds.Remap
import Fgds.KernelMap
import Fgds.GpuMap
import Fgds.GpuTransfer
import Fgds.KernelHeap
import Fgds.MapArrays
import Fgds.MapUndo
import Fgds.Descriptors
import Fgds.Pins
import Fgds.Buffers
import Fgds.AddressSpace
import Fgds.Resolve
import Fgds.RegmemUndo
import Fgds.ModuleInit
import Fgds.ModuleExit
import Fgds.Pci
import Fgds.GpuSlots
import Fgds.DeviceNodes
import Fgds.Backend.Metadata
import Fgds.Backend.Paths
import Fgds.Backend.Restart
import Fgds.Backend.Index
import Fgds.Backend.Contains
import Fgds.Backend.SaveLoad
import Fgds.Backend.Fallback
import Fgds.Backend.Mounts
import Fgds.Backend.Puts
import Fgds.Backend.GetBlocking
import Fgds.Backend.BatchGet
import Fgds.Backend.Crash
import Fgds.Backend.Devices
import Fgds.Safetensors.Json
import Fgds.Safetensors.JsonText
import Fgds.Safetensors.FromChars
import Fgds.Safetensors.Shifts
import Fgds.Safetensors.Header
import Fgds.Safetensors.ReadNumber
import Fgds.Safetensors.Save
import Fgds.Safetensors.RoundTrip
import Fgds.Safetensors.ToDevice
import Fgds.Safetensors.Chunk
import Fgds.Fio
import Fgds.KvReplay
import Fgds.TorchFile
import Fgds.ThreadedReader
import Fgds.CopierWait
import Fgds.MicroBench
import Fgds.BenchRing
