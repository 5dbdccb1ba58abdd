import Kernel391.Lib.PointerChain
import Kernel391.Lib.Slots
import Kernel391.Lib.Stream
import Kernel391.Lib.AddressRange
import Kernel391.ProcessTheorems
import Kernel391.Forest
import Kernel391.ProcessForest
import Kernel391.CommandTheorems
import Kernel391.Callers
import Kernel391.Descriptors
import Kernel391.ContextSwitch
import Kernel391.KernelStack
import Kernel391.PagingTheorems
import Kernel391.Dispatcher
import Kernel391.Isolation
import Kernel391.ConsoleTheorems
import Kernel391.LineInput
import Kernel391.LineDiscipline
import Kernel391.Drivers
import Kernel391.Screen
import Kernel391.Display
import Kernel391.Terminals
import Kernel391.VideoMemory
import Kernel391.FileContents
import Kernel391.FileCalls
import Kernel391.FileStreams
import Kernel391.Listings
import Kernel391.Names
import Kernel391.Allocation
import Kernel391.Buffers
import Kernel391.Lib.Traced
import Kernel391.Lib.Words
import Kernel391.Texts
import Kernel391.Commands
import Kernel391.BlockReads
import Kernel391.CommandWords
import Kernel391.CommandBounds
import Kernel391.LiveDisplay
import Kernel391.CriticalSections
import Kernel391.RtcRates
import Kernel391.Executables
import Kernel391.Arguments
import Kernel391.Modifiers
import Kernel391.Lib.TextScreen
import Kernel391.TextOutput
import Kernel391.CursorBounds
import Kernel391.BufferBounds
import Kernel391.Lib.SearchDown
import Kernel391.Typing
import Kernel391.BackspaceSearch
import Kernel391.Keystrokes
import Kernel391.Lib.StringMachine
import Kernel391.MemoryCopies
import Kernel391.MemoryMoves
import Kernel391.Fish.Blink
import Kernel391.Fish.BlinkList
import Kernel391.Fish.BlinkScreen
import Kernel391.Printf
import Kernel391.NumberFormats
import Kernel391.FormatScan
import Kernel391.PagingFrames
import Kernel391.RtcReads
import Kernel391.Lib.Programs
import Kernel391.Interleaving
import Kernel391.Children
import Kernel391.SuspendedCalls
import Kernel391.UserCalls
import Kernel391.StandardStreams
import Kernel391.UserPrograms
import Kernel391.Conversations
import Kernel391.Shell
import Kernel391.Counter
import Kernel391.Lib.RoundRobin
import Kernel391.Turns
import Kernel391.Lib.StackMachine
import Kernel391.Gates
import Kernel391.Traps
import Kernel391.Lib.InterruptControllers
import Kernel391.InterruptController
import Kernel391.Lib.Lines
import Kernel391.Grep
import Kernel391.Fish.Frames
import Kernel391.Fish.Animation
