import Ease.Checked
import Ease.Slots
import Ease.Runs
import Ease.Lockstep
import Ease.Utf8
import Ease.TwoList
import Ease.Collection
import Ease.VecRuns
import Ease.VecText
import Ease.Input
import Ease.EscapeParser
import Ease.EscapeStreams
import Ease.Keyboard
import Ease.EscapeWait
import Ease.KeyChunks
import Ease.LineEditor
import Ease.Session
import Ease.LineEditorRefinement
import Ease.EditorPanics
import Ease.EditorInvariant
import Ease.EditorHistory
import Ease.EditorText
import Ease.Raster
import Ease.FrameBuffer
import Ease.Font
import Ease.Scrollback
import Ease.Terminal
import Ease.Console
import Ease.ConsoleSimulation
import Ease.ConsoleScreen
import Ease.ConsoleRuns
import Ease.ConsoleAttach
import Ease.TerminalRow
import Ease.Shell
import Ease.ShellDisplay
import Ease.ShellTyping
import Ease.Commands
import Ease.CommandWords
import Ease.Sinks
import Ease.Transcript
import Ease.ShellSerial
import Ease.ShellSimulation
import Ease.AnyInput
import Ease.Glass
import Ease.Alignment
import Ease.BumpAllocator
import Ease.HeapBounds
import Ease.SpinLock
import Ease.ConsoleLock
import Ease.Timer
import Ease.TimerRegisters
import Ease.Sleep
import Ease.ByteMemory
import Ease.Fields
import Ease.ArrayMemory
import Ease.BareScreen
import Ease.Ramfb
import Ease.BareConsole
import Ease.Objects
import Ease.ObjectHeap
import Ease.SavedWords
import Ease.Trap
import Ease.Rv32
import Ease.Boot
import Ease.VirtQueue
import Ease.VirtioBlk
import Ease.VirtioRequest
import Ease.BlockStore
import Ease.VirtioInit
import Ease.QueueMemory
import Ease.BareDisk
import Ease.BareRefinement
import Ease.SharedMemory
import Ease.BareShell
import Ease.Fat16
