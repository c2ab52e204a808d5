import Aosis.Memory.PmmInit
import Aosis.Interrupt.Keyboard
import Aosis.Memory.KmallocSafe
import Aosis.Memory.KmallocSplit
import Aosis.Memory.Vmm
import Aosis.Memory.VmmLayout
import Aosis.Memory.VmmBoot
import Aosis.Lib.Page
import Aosis.Terminal.Tty
import Aosis.Terminal.Kshell
import Aosis.Task.Task
import Aosis.Task.RoundRobin
import Aosis.Memory.KmallocFirst
import Aosis.Task.Tss
import Aosis.Lib.Stack
import Aosis.Memory.PageTables
import Aosis.Memory.VmmMapped
import Aosis.Memory.VmmPages
import Aosis.Memory.VmmAccounts
import Aosis.Memory.VmmOwnership
import Aosis.Memory.NullFrame
import Aosis.Memory.Userspace
import Aosis.Memory.KernelHalf
import Aosis.Memory.KmallocTail
import Aosis.Interrupt.Cpu
import Aosis.Interrupt.Stub
import Aosis.Interrupt.ExceptionReturn
import Aosis.Interrupt.IrqReturn
import Aosis.Task.Switch
import Aosis.Task.Preempt
import Aosis.Task.StaleHeap
import Aosis.Terminal.Bounds
import Aosis.Lib.Tape
import Aosis.Terminal.Echo
import Aosis.Lib.Gapped
import Aosis.Memory.KfreeOrder
import Aosis.Memory.FreeMemory
import Aosis.Memory.KmallocServes
import Aosis.Lib.Latch
import Aosis.Interrupt.Scancode
import Aosis.Interrupt.Modifiers
import Aosis.Libc.Str
import Aosis.Terminal.Command
import Aosis.Memory.PmmRange
import Aosis.Memory.VmmFree
import Aosis.Memory.VmmGrowth
import Aosis.Memory.VmmChain
import Aosis.Memory.VmmTranslate
import Aosis.Lib.Copy
import Aosis.Libc.Memory
import Aosis.Lib.Lex
import Aosis.Libc.Order
import Aosis.Memory.Gdt
import Aosis.Interrupt.Releases
import Aosis.Memory.FirstClear
import Aosis.Memory.MapPage
import Aosis.Lib.Numeral
import Aosis.Terminal.Numerals
import Aosis.Terminal.Printed
import Aosis.Terminal.Colour
import Aosis.Memory.Allocators
import Aosis.Memory.AllocatorsGrowth
import Aosis.Terminal.Console
import Aosis.Memory.TempUserspace
import Aosis.Task.Protection
import Aosis.Boot.Start
import Aosis.Libc.Strcat
import Aosis.Interrupt.Exceptions
import Aosis.Task.Stray
