import Lunaria.Lib.Run
import Lunaria.Lib.ByteMemory
import Lunaria.Lib.Interval
import Lunaria.Lib.Multimap
import Lunaria.Layout
import Lunaria.Heap.Allocator
import Lunaria.Heap.Blocks
import Lunaria.Heap.Operations
import Lunaria.Heap.Runs
import Lunaria.Mmap.Bump
import Lunaria.Mmap.FreeSpace
import Lunaria.Space.AddressSpace
import Lunaria.Space.Handlers
import Lunaria.Space.Outcomes
import Lunaria.Space.Mappings
import Lunaria.Space.Disjoint
import Lunaria.Heap.Confinement
import Lunaria.Space.HeapSeparation
import Lunaria.Space.FreshContents
import Lunaria.Lib.Ownership
import Lunaria.Space.WindowBytes
import Lunaria.Space.WindowSeparation
import Lunaria.Space.LazyReservation
import Lunaria.Space.OneMemory
import Lunaria.Lib.CppVector
import Lunaria.Threads.Records
import Lunaria.Threads.Ids
import Lunaria.Threads.Slice
import Lunaria.Threads.Context
import Lunaria.Lib.History
import Lunaria.Sync.Exclusives
import Lunaria.Sync.NoLostUpdate
import Lunaria.Guest.Stubs
import Lunaria.Sync.Mutex
import Lunaria.Sync.MutualExclusion
import Lunaria.Lib.AtEach
import Lunaria.Sync.Passes
import Lunaria.Sync.CondVar
import Lunaria.Lib.WakeTokens
import Lunaria.Sync.Futex
import Lunaria.Sync.Semaphore
import Lunaria.Sync.Once
import Lunaria.Sync.RwLock
import Lunaria.Sync.CxaGuard
import Lunaria.Threads.Join
import Lunaria.Threads.CurrentTid
import Lunaria.Process.Machine
import Lunaria.Process.ThreadSeparation
import Lunaria.Process.LibraryPlacement
import Lunaria.Guest.CodeProtection
import Lunaria.Elf.Format
import Lunaria.Elf.Parse
import Lunaria.Elf.Linker
import Lunaria.Elf.Load
import Lunaria.Elf.Binding
import Lunaria.Lib.Patch
import Lunaria.Elf.Relocation32
import Lunaria.Elf.Relocation64
import Lunaria.Elf.InputSafety
import Lunaria.Elf.StubPool
import Lunaria.Lib.Zip
import Lunaria.Apk.Bridge
import Lunaria.Apk.Index
import Lunaria.Apk.AssetLookup
import Lunaria.Apk.CacheFiles
import Lunaria.Apk.AssetPaths
import Lunaria.Apk.Confinement
import Lunaria.Apk.CacheRuns
import Lunaria.Input.Touch
import Lunaria.Jni.Arguments
import Lunaria.Jni.Delivery
import Lunaria.Jni.Lost
import Lunaria.Zlib.Mirror
import Lunaria.Process.Nesting
import Lunaria.Sync.FastMutex
import Lunaria.Sync.FutexCalls
import Lunaria.Space.ServicePages
import Lunaria.Jvm.Arrays
import Lunaria.Jvm.Calls
import Lunaria.Jvm.Choreographer
import Lunaria.Jvm.Fields
import Lunaria.Jvm.Natives
import Lunaria.Jvm.Strings
import Lunaria.Apk.HostPaths
import Lunaria.Guest.ProcPaths
import Lunaria.Guest.Writev
import Lunaria.Heap.ReallocData
import Lunaria.Heap.Rounding
import Lunaria.Heap.UsableSize
import Lunaria.Space.ProtNone
import Lunaria.Space.WideAccess
import Lunaria.Threads.FirstSlice
import Lunaria.Guest.Adapter
import Lunaria.Guest.MonoPaths
import Lunaria.Apk.Streams
import Lunaria.Apk.Directory
import Lunaria.Gl.Bindings
import Lunaria.Native.StaticMutex
import Lunaria.Threads.Dispositions
import Lunaria.Process.LibraryNames
import Lunaria.Native.Libc
