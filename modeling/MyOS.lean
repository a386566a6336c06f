import MyOS.Base.Runs
import MyOS.Base.KeyedTable
import MyOS.Base.Parking
import MyOS.Base.Traced
import MyOS.Base.ByteLoop
import MyOS.Base.Circular
import MyOS.Base.WordStack
import MyOS.Base.Overlay
import MyOS.Base.OnesComplement
import MyOS.Base.Prefixed
import MyOS.Base.Written
import MyOS.Base.Filled
import MyOS.Base.Occurrence
import MyOS.Base.Decimal
import MyOS.Base.BoundedQueue
import MyOS.Base.Aligned
import MyOS.StringC.Search
import MyOS.StringC.Format
import MyOS.Heap.Blocks
import MyOS.Pci.Config
import MyOS.Pci.Scan
import MyOS.Elf.Load
import MyOS.Elf.Bounds
import MyOS.Elf.Reads
import MyOS.Elf.Contents
import MyOS.Ui.Graphics
import MyOS.Ui.Multiboot
import MyOS.Ui.Pixels
import MyOS.Ui.Text
import MyOS.Ui.Cursor
import MyOS.Ui.Scene
import MyOS.Syscall.Handler
import MyOS.Syscall.Stub
import MyOS.Syscall.Idt
import MyOS.Elf.Exit
import MyOS.Ui.Content
import MyOS.Base.Nested
import MyOS.Ui.Screens
import MyOS.Ui.Mouse
import MyOS.Ui.Restored
import MyOS.Ui.Printers
import MyOS.Ui.Calculator
import MyOS.Ui.Viewer
import MyOS.Json.Jsmn
import MyOS.Json.Lexical
import MyOS.Json.Scan
import MyOS.Json.Calls
import MyOS.Json.Count
import MyOS.Json.Tokens
import MyOS.Json.Text
import MyOS.Json.RoundTrip
import MyOS.Json.Shown
import MyOS.Nic.E1000
import MyOS.Nic.Receive
import MyOS.Nic.Transmit
import MyOS.Nic.Rtl8139
import MyOS.Nic.FirstLap
import MyOS.Net.Receive
import MyOS.Net.Pending
import MyOS.Net.ArpCache
import MyOS.Net.RoundTrip
import MyOS.Net.Wire
import MyOS.Net.Headers
import MyOS.Net.Buffers
import MyOS.Net.PacketOrder
import MyOS.Dns.Message
import MyOS.Dns.Table
import MyOS.Dns.Outstanding
import MyOS.Dns.Cache
import MyOS.Dns.Resolution
import MyOS.Dns.Resolve
import MyOS.Dns.Reads
import MyOS.Dns.Boundaries
import MyOS.Dns.PackName
import MyOS.Dns.Query
import MyOS.Tcp.Checksum
import MyOS.Tcp.Handshake
import MyOS.Tcp.Peer
import MyOS.Tcp.Fin
import MyOS.Tcp.Close
import MyOS.Tcp.Copies
import MyOS.Tcp.Buffer
import MyOS.Tcp.Delivery
import MyOS.Tcp.Sends
import MyOS.Tcp.Sequence
import MyOS.Http.Ending
import MyOS.Http.Get
import MyOS.Http.Polls
import MyOS.Http.Requests
import MyOS.Http.Url
import MyOS.Http.Release
import MyOS.Http.Schedule
import MyOS.Http.Page
import MyOS.Http.Location
import MyOS.Http.Literal
import MyOS.Http.Address
import MyOS.Usb.Rings
import MyOS.Usb.Xhci
import MyOS.Usb.Transfer
import MyOS.Usb.EventQueue
import MyOS.Usb.Staging
import MyOS.Usb.Laps
import MyOS.Usb.Completions
import MyOS.Usb.Callers
import MyOS.Usb.Outcome
import MyOS.Usb.EnableSlot
import MyOS.Usb.Context
import MyOS.Usb.Descriptors
import MyOS.Ui.Fetch
import MyOS.Base.Layout
import MyOS.Ui.Browser
import MyOS.Http.Visits
import MyOS.Net.Titles
