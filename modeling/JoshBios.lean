import JoshBios.Lib.Runs
import JoshBios.Lib.Bytes
import JoshBios.Lib.TwoCopy
import JoshBios.Lib.Chunks
import JoshBios.Crc32
import JoshBios.FwUpdate
import JoshBios.FwSpec
import JoshBios.FwRun
import JoshBios.FwTrial
import JoshBios.FwHistory
import JoshBios.Health
import JoshBios.Config
import JoshBios.Slots
import JoshBios.Partition
import JoshBios.PartitionTable
import JoshBios.Fat32
import JoshBios.Elf64
import JoshBios.ElfSpec
import JoshBios.Handoff
import JoshBios.Stage2
import JoshBios.SlotLoop
import JoshBios.HealthStore
import JoshBios.LoadElf
import JoshBios.Leftovers
import JoshBios.UefiFiles
import JoshBios.SlotChain
import JoshBios.FirstAttempt
import JoshBios.UefiElf
import JoshBios.Lib.PageTable
import JoshBios.UefiPaging
import JoshBios.UefiKernel
import JoshBios.Candidates
import JoshBios.HealthRun
import JoshBios.TrialBoots
import JoshBios.ElfFormat
import JoshBios.BiosPaging
import JoshBios.RawWrites
import JoshBios.HealthCtl
import JoshBios.UefiHealth
import JoshBios.UsableRam
import JoshBios.ElfSegments
import JoshBios.UefiPlace
import JoshBios.UefiPool
import JoshBios.FatGeometry
import JoshBios.FatRead
import JoshBios.FatServe
import JoshBios.FatErrors
import JoshBios.FatDirectory
import JoshBios.FatPath
import JoshBios.ConfigGrammar
import JoshBios.ConfigParse
import JoshBios.Lib.Crc
import JoshBios.CrcSpec
import JoshBios.FwStage
import JoshBios.CrcBursts
import JoshBios.Gpt
import JoshBios.BootPartition
import JoshBios.FwBounded
import JoshBios.FirmwareTables
import JoshBios.GptWrites
import JoshBios.UefiMain
import JoshBios.UefiMap
import JoshBios.UefiHandoff
import JoshBios.FatNames
import JoshBios.Runtime32
import JoshBios.KernelPaths
import JoshBios.FatFootprint
import JoshBios.KernelImage
import JoshBios.HealthFrame
import JoshBios.SlotOutcome
import JoshBios.Lib.Refine
import JoshBios.BootPolicy
import JoshBios.SharedDisk
import JoshBios.PowerCuts
import JoshBios.RealMode
import JoshBios.Lib.Fields
import JoshBios.BootInfo
import JoshBios.BootHandoff
import JoshBios.BootedKernel
import JoshBios.FirmwareMap
import JoshBios.BiosBlock
import JoshBios.UefiBootInfo
import JoshBios.UefiBooted
import JoshBios.UefiPolicy
import JoshBios.BootPaths
