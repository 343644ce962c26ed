import Bionic.Lib.Horner
import Bionic.Lib.Neon
import Bionic.Lib.CString
import Bionic.Lib.Sleb128
import Bionic.Lib.Align
import Bionic.Lib.SkewAlign
import Bionic.Lib.ListSeg
import Bionic.Lib.Bst
import Bionic.Lib.FindOrAdd
import Bionic.Lib.Interleaving
import Bionic.Lib.Calls
import Bionic.Linker.GnuHash
import Bionic.Linker.SymbolLookup
import Bionic.Linker.Sleb128
import Bionic.Linker.PackedRelocs
import Bionic.Linker.Relr
import Bionic.Linker.Relocate
import Bionic.Linker.NormalizePath
import Bionic.Linker.ReservePadding
import Bionic.Linker.ElfLoader
import Bionic.SystemProperties.PropArea
import Bionic.SystemProperties.PropTrie
import Bionic.SystemProperties.PropStore
import Bionic.SystemProperties.PropertyUpdate
import Bionic.SystemProperties.Add
import Bionic.SystemProperties.Wait
import Bionic.Errno
import Bionic.Pthread.Barrier
import Bionic.Lib.Utf8
import Bionic.Lib.ByteOrder
import Bionic.Uchar.Mbstate
import Bionic.Uchar.Utf8
import Bionic.Uchar.Utf16
import Bionic.Iconv.Convert
import Bionic.Iconv.FromUtf8
import Bionic.Lib.ByteMemory
import Bionic.MallocDebug.DebugData
import Bionic.MallocDebug.PointerData
import Bionic.MallocDebug.MallocDebug
import Bionic.MallocDebug.Spec
import Bionic.MallocDebug.Realloc
import Bionic.Lib.Decimal
import Bionic.GrpPwd.GrpPwd
import Bionic.GrpPwd.RoundTrip
import Bionic.GrpPwd.Getent
import Bionic.Linker.CfiShadow
import Bionic.Dns.Packet
import Bionic.Dns.ResCache
import Bionic.Stdio.Scanset
import Bionic.Pthread.CxaGuard
import Bionic.Pthread.Key
import Bionic.Exit.Atexit
import Bionic.Stdio.PrintfArgs
import Bionic.Stdio.PrintfInt
import Bionic.Stdio.PrintfC23
import Bionic.AsyncSafe.Format
import Bionic.Netlink.Ifaddrs
import Bionic.Stdio.Fmemopen
import Bionic.Stdlib.Strtol
import Bionic.Stdio.ScanfInt
import Bionic.Tls.StaticLayout
import Bionic.Tls.Dtv
import Bionic.Linker.LinkedList
import Bionic.Linker.BlockAllocator
import Bionic.Lib.FitChunks
import Bionic.Uchar.Wchar
import Bionic.Lib.BitField
import Bionic.Pthread.Attr
import Bionic.Lib.Pieces
import Bionic.Libgen.Libgen
import Bionic.MallocLimit.Limit
import Bionic.SystemProperties.ContextsSplit
import Bionic.Pthread.Create
import Bionic.Signal.ReservedSignals
import Bionic.Unwind.FramePointerChase
import Bionic.Pthread.RunOnAllThreads
import Bionic.Linker.GnuProperty
import Bionic.Linker.ElfNote
import Bionic.Pthread.Semaphore
import Bionic.Lib.Compact
import Bionic.LibcInit.AtSecure
import Bionic.MallocDebug.Backtraces
import Bionic.GrpPwd.File
import Bionic.Lib.ListOrder
import Bionic.Linker.Constructors
import Bionic.Lib.LongestMatch
import Bionic.Stdio.Parsefloat
import Bionic.Stdlib.Wcstod
