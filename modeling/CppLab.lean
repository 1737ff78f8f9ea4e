import CppLab.Lib.System
import CppLab.Lib.CriticalSection
import CppLab.Lib.Ledger
import CppLab.Lib.Fragment
import CppLab.Lib.ByteOrder
import CppLab.Lib.Memory
import CppLab.Lib.Forest
import CppLab.Lib.Cascade
import CppLab.Lib.Markup
import CppLab.Lib.Owner
import CppLab.Lib.Utf8
import CppLab.Lib.ForkJoin
import CppLab.Lib.Interleavings
import CppLab.Lib.Json
import CppLab.Lib.JsonText
import CppLab.Lib.Elements
import CppLab.Lib.Buffer
import CppLab.Env.StdString
import CppLab.Env.StdStream
import CppLab.Env.StdExtract
import CppLab.Env.StdLines
import CppLab.Env.UnorderedMap
import CppLab.Env.Posix
import CppLab.Socket.HandleClient
import CppLab.Socket.Echo
import CppLab.Socket.QuitFraming
import CppLab.Socket.AcceptLoop
import CppLab.Socket.MultiTCPServer
import CppLab.Socket.PerClient
import CppLab.Socket.LeaveNothing
import CppLab.Socket.Shutdown
import CppLab.Socket.Lifecycle
import CppLab.Socket.ClientDescriptors
import CppLab.Socket.Link
import CppLab.Socket.Lockstep
import CppLab.Socket.SendDeadlock
import CppLab.Socket.LinkProgress
import CppLab.Socket.AnnouncedPort
import CppLab.Socket.PartialWrites
import CppLab.Concurrency.ConditionVariable
import CppLab.Concurrency.RaceCondition
import CppLab.Concurrency.LostUpdates
import CppLab.Concurrency.Logger
import CppLab.Concurrency.ThreadManagement
import CppLab.Concurrency.FuturePromise
import CppLab.FileHandle.Account
import CppLab.FileHandle.AccountFile
import CppLab.FileHandle.AccountSearch
import CppLab.FileHandle.AccountIntact
import CppLab.FileHandle.FileIO
import CppLab.Menu.ExampleRegistry
import CppLab.Menu.MenuSafety
import CppLab.Menu.Numbering
import CppLab.Menu.CommandLine
import CppLab.Menu.ReadChoice
import CppLab.Menu.Terminal
import CppLab.Patterns.Builder
import CppLab.Patterns.Composite
import CppLab.Patterns.FolderTree
import CppLab.Patterns.FolderOwnership
import CppLab.Patterns.ShortCut
import CppLab.Patterns.Flyweight
import CppLab.Patterns.ImageFlyweight
import CppLab.Patterns.FlyweightPool
import CppLab.Patterns.Proxy
import CppLab.Patterns.Command
import CppLab.Patterns.Iterator
import CppLab.Patterns.Memento
import CppLab.Patterns.Observer
import CppLab.Patterns.DeviceContext
import CppLab.Patterns.DeviceCycle
import CppLab.Patterns.JsonExport
import CppLab.Patterns.ChainOfResponsibility
import CppLab.Patterns.Replacement
import CppLab.Patterns.VisitorExport
import CppLab.Ap.Monitors
import CppLab.Ap.LateViews
import CppLab.Embedded.Startup
import CppLab.Embedded.BootAccesses
import CppLab.Embedded.Uart
import CppLab.Embedded.Main
import CppLab.Class.Model
import CppLab.Class.Termination
import CppLab.Class.Ownership
import CppLab.Class.CopyAssignment
import CppLab.Class.ValueSemantics
import CppLab.Class.ShallowDeep
import CppLab.Class.ShallowSharing
import CppLab.Utils.Variadic
import CppLab.Tests.FakeTurtle
import CppLab.Tests.UsbHostSerialRead
import CppLab.Function.StreamOperator
import CppLab.Controller.Pid
import CppLab.SmartPointer.Config
import CppLab.Patterns.Prototype
