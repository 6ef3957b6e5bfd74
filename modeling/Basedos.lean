import Basedos.Lib.Memory
import Basedos.Lib.Signed
import Basedos.Lib.Numeral
import Basedos.Lib.Run
import Basedos.Lib.Bytes
import Basedos.Lib.Devices
import Basedos.CLib.String
import Basedos.Kernel.Memory
import Basedos.Kernel.Allocation
import Basedos.Kernel.Reclaiming
import Basedos.Fs.Node
import Basedos.Fs.Vfs
import Basedos.Fs.Descriptors
import Basedos.Lib.Pieces
import Basedos.Fs.Path
import Basedos.Fs.Memfs
import Basedos.Fs.Lookup
import Basedos.Fs.Exhaustion
import Basedos.Fs.Listing
import Basedos.Fs.Mounting
import Basedos.Fs.AccessModes
import Basedos.Fs.Content
import Basedos.Fs.Files
import Basedos.Fs.Refinement
import Basedos.Lib.Slice
import Basedos.Kernel.Interrupts
import Basedos.Lib.Loop
import Basedos.Kernel.Terminal
import Basedos.Kernel.Page
import Basedos.Kernel.Erasing
import Basedos.Kernel.Colours
import Basedos.Kernel.Printk
import Basedos.Kernel.Decimal
import Basedos.Lib.Buffer
import Basedos.Kernel.LineEditor
import Basedos.Kernel.Editing
import Basedos.Fs.Cycles
import Basedos.Fs.Bounds
import Basedos.Fs.Seek
import Basedos.Fs.SeekEnd
import Basedos.Lib.Ring
import Basedos.Kernel.Tasks
import Basedos.Kernel.Stacks
import Basedos.Kernel.ArrowKeys
import Basedos.Kernel.Typing
import Basedos.Lib.Assoc
import Basedos.Kernel.Aliases
import Basedos.Lib.Words
import Basedos.CLib.Tokens
import Basedos.CLib.Numbers
import Basedos.CLib.Memmove
import Basedos.CLib.Numerals
import Basedos.Kernel.Parse
import Basedos.Kernel.Arguments
import Basedos.Kernel.System
import Basedos.Kernel.Commands
import Basedos.Lib.Outcome
import Basedos.Kernel.ShellArrays
import Basedos.Kernel.AliasRecords
import Basedos.Kernel.ShellBuffers
import Basedos.Kernel.CommandWord
import Basedos.Kernel.Returning
import Basedos.Kernel.ExitStatus
import Basedos.Kernel.Calculator
import Basedos.Kernel.Exit
import Basedos.Kernel.WriteCommand
import Basedos.Kernel.Expansion
import Basedos.Kernel.ChangeDirectory
import Basedos.Lib.Latest
import Basedos.Kernel.History
import Basedos.Kernel.Navigation
import Basedos.Kernel.Ports
import Basedos.Kernel.DescriptorTable
import Basedos.Fs.BareRoot
import Basedos.Kernel.SelfTest
import Basedos.Kernel.PlainShell
import Basedos.Kernel.RecordTable
import Basedos.Kernel.ShellRefinement
import Basedos.Kernel.Boot
import Basedos.Kernel.Formats
import Basedos.Kernel.Printout
import Basedos.Kernel.Display
import Basedos.Kernel.Typist
import Basedos.Kernel.VisibleLine
import Basedos.Lib.RoundRobin
import Basedos.Kernel.TakingTurns
import Basedos.Kernel.Unread
import Basedos.Kernel.Hexadecimal
