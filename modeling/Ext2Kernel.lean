import Ext2Kernel.Basic.ByteMem
import Ext2Kernel.Basic.LinkedStacks
import Ext2Kernel.Basic.StepSystem
import Ext2Kernel.Console.Agreement
import Ext2Kernel.Console.Cells
import Ext2Kernel.Console.Isolation
import Ext2Kernel.Console.Keyboard
import Ext2Kernel.Console.KeyboardSpec
import Ext2Kernel.Console.LineIndices
import Ext2Kernel.Console.LineText
import Ext2Kernel.Console.Screen
import Ext2Kernel.Console.ScreenSpec
import Ext2Kernel.Console.Screens
import Ext2Kernel.Console.State
import Ext2Kernel.Console.TerminalRead
import Ext2Kernel.FileSys.Cursor
import Ext2Kernel.FileSys.EndOfFile
import Ext2Kernel.FileSys.Image
import Ext2Kernel.FileSys.ReadData
import Ext2Kernel.Process.Actions
import Ext2Kernel.Process.AddressSpace
import Ext2Kernel.Process.Arguments
import Ext2Kernel.Process.BufferSizes
import Ext2Kernel.Process.CallEffects
import Ext2Kernel.Process.ConsoleEvents
import Ext2Kernel.Process.CursorRuns
import Ext2Kernel.Process.DescriptorCalls
import Ext2Kernel.Process.Descriptors
import Ext2Kernel.Process.Events
import Ext2Kernel.Process.Execute
import Ext2Kernel.Process.ExecuteSpec
import Ext2Kernel.Process.ExitStatus
import Ext2Kernel.Process.FileReads
import Ext2Kernel.Process.Files
import Ext2Kernel.Process.Halt
import Ext2Kernel.Process.HaltSpec
import Ext2Kernel.Process.KeyboardBounds
import Ext2Kernel.Process.LineDelivery
import Ext2Kernel.Process.LineEditor
import Ext2Kernel.Process.Nesting
import Ext2Kernel.Process.Resumption
import Ext2Kernel.Process.RtcRuns
import Ext2Kernel.Process.ScreenRuns
import Ext2Kernel.Process.State
import Ext2Kernel.Process.Tree
import Ext2Kernel.Process.TreeRuns
import Ext2Kernel.Process.UserPointers
import Ext2Kernel.Process.VideoMapping
import Ext2Kernel.Basic.Scan
import Ext2Kernel.Basic.Stores
import Ext2Kernel.FileSys.Directory
import Ext2Kernel.FileSys.ReadMemory
import Ext2Kernel.Process.DirectoryRuns
import Ext2Kernel.Process.ExecutableCheck
import Ext2Kernel.Process.FailedExecute
import Ext2Kernel.Process.OpenFile
import Ext2Kernel.Process.ParseArgs
import Ext2Kernel.Process.PointerStores
import Ext2Kernel.Process.StoreRuns
import Ext2Kernel.Process.ProgramLoading
import Ext2Kernel.Process.RtcFrequency
import Ext2Kernel.Basic.TextScreen
import Ext2Kernel.Console.History
import Ext2Kernel.Console.TextTerminal
import Ext2Kernel.Process.CommandHistory
import Ext2Kernel.Process.ReadableFiles
import Ext2Kernel.Basic.LinkedList
import Ext2Kernel.Console.Flags
import Ext2Kernel.Fish.Blink
import Ext2Kernel.Fish.BlinkList
import Ext2Kernel.Process.EventFlags
import Ext2Kernel.Process.ShellFlags
import Ext2Kernel.Process.TooManyShells
import Ext2Kernel.Console.Echo
import Ext2Kernel.Fish.BlinkScreen
import Ext2Kernel.Basic.CString
import Ext2Kernel.Basic.Numeral
import Ext2Kernel.Lib.Itoa
import Ext2Kernel.Lib.Printf
import Ext2Kernel.Process.EchoRuns
import Ext2Kernel.Console.Arrows
import Ext2Kernel.Process.ArrowRuns
import Ext2Kernel.Console.ShellEditor
import Ext2Kernel.Process.ClearKey
import Ext2Kernel.Basic.RepString
import Ext2Kernel.Lib.Block
import Ext2Kernel.Basic.PageTables
import Ext2Kernel.Process.Paging
import Ext2Kernel.Process.Protection
import Ext2Kernel.Basic.StreamFilter
import Ext2Kernel.Basic.Lines
import Ext2Kernel.Process.Routines
import Ext2Kernel.Programs.Support
import Ext2Kernel.Programs.FilterProgram
import Ext2Kernel.Programs.Sources
import Ext2Kernel.Programs.Cat
import Ext2Kernel.Programs.Grep
import Ext2Kernel.Programs.Shell
