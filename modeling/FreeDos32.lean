import FreeDos32.Ata.Capacity
import FreeDos32.Ata.PacketBounds
import FreeDos32.Devices.Order
import FreeDos32.Dpmi.Descriptors
import FreeDos32.Dpmi.Dosmem
import FreeDos32.Dpmi.DosmemRuns
import FreeDos32.Dpmi.Dpmimem
import FreeDos32.Dpmi.Isolation
import FreeDos32.Dynalink.BaseReloc
import FreeDos32.Dynalink.Bounds
import FreeDos32.Dynalink.Coff
import FreeDos32.Dynalink.Common
import FreeDos32.Dynalink.Coverage
import FreeDos32.Dynalink.Elf
import FreeDos32.Dynalink.Exec
import FreeDos32.Dynalink.Format
import FreeDos32.Dynalink.Layout
import FreeDos32.Dynalink.Pei
import FreeDos32.Dynalink.Relocation
import FreeDos32.Dynalink.SectionOrder
import FreeDos32.Fat.CacheRuns
import FreeDos32.Fat.ChainDeletion
import FreeDos32.Fat.Contents
import FreeDos32.Fat.DirRemoval
import FreeDos32.Fat.Emptiness
import FreeDos32.Fat.EntryCodec
import FreeDos32.Fat.FcbName
import FreeDos32.Fat.FileRuns
import FreeDos32.Fat.Fsinfo
import FreeDos32.Fat.LongName
import FreeDos32.Fat.Mounting
import FreeDos32.Fat.Pending
import FreeDos32.Fat.RefsRuns
import FreeDos32.Fat.Removal
import FreeDos32.Fat.Resolve
import FreeDos32.Fat.Rmdir
import FreeDos32.Fat.Search
import FreeDos32.Fat.StaleRing
import FreeDos32.Fat.Truncate
import FreeDos32.Fat.Wildcards
import FreeDos32.Fat.WriteCount
import FreeDos32.Filesys.Canonical
import FreeDos32.Filesys.CurrentDirs
import FreeDos32.Filesys.DriveIndex
import FreeDos32.Filesys.Handles
import FreeDos32.Filesys.Mounts
import FreeDos32.Filesys.TruenameBounds
import FreeDos32.Filesys.TruenameBuffers
import FreeDos32.Floppy.Coherence
import FreeDos32.Format.Mounted
import FreeDos32.Iso9660.Agreement
import FreeDos32.Iso9660.Find
import FreeDos32.Iso9660.Names
import FreeDos32.Iso9660.OpenResult
import FreeDos32.Iso9660.PathResolution
import FreeDos32.Iso9660.Reading
import FreeDos32.Iso9660.RecordBounds
import FreeDos32.Iso9660.Seeking
import FreeDos32.Iso9660.Tree
import FreeDos32.Iso9660.Walk
import FreeDos32.Kernel.Argv
import FreeDos32.Kernel.ListRuns
import FreeDos32.Kernel.Mem
import FreeDos32.Kernel.Memcpy
import FreeDos32.Kernel.PmmCounter
import FreeDos32.Kernel.PmmLaws
import FreeDos32.Kernel.PmmOrder
import FreeDos32.Kernel.SlabRuns
import FreeDos32.Kernel.Syscalls
import FreeDos32.Keyb.Flags
import FreeDos32.Keyb.Postprocess
import FreeDos32.Leanfs.Formatted
import FreeDos32.Leanfs.LinkLaw
import FreeDos32.Library.Loops
import FreeDos32.Library.Memory
import FreeDos32.Library.Wp
import FreeDos32.Oslib.WakeUps
import FreeDos32.Partscan.Ending
import FreeDos32.Partscan.Result
import FreeDos32.Pit.Passes
import FreeDos32.Pit.Timing
import FreeDos32.Unicode.Utf16
import FreeDos32.Unicode.Utf8
