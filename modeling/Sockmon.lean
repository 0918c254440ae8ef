import Sockmon.Lib.StableInsert
import Sockmon.Run.Keys
import Sockmon.Run.Cursor
import Sockmon.Run.SortKey
import Sockmon.Field.BareLine
import Sockmon.Lib.LineScan
import Sockmon.Field.Line
import Sockmon.Field.Reading
import Sockmon.Run.Filters
import Sockmon.Run.Table
import Sockmon.Run.Preview
import Sockmon.Lib.Chains
import Sockmon.Proc.Table
import Sockmon.Proc.Free
import Sockmon.Run.Owners
import Sockmon.Dump.Order
import Sockmon.Dump.Attrs
import Sockmon.Dump.Message
import Sockmon.Dump.Copy
import Sockmon.Lib.AllOf
import Sockmon.Draw.Verdict
import Sockmon.Draw.Received
import Sockmon.Draw.Rows
import Sockmon.Field.Numeric
import Sockmon.Dump.Walk
import Sockmon.Run.Body
import Sockmon.Run.ExtReq
import Sockmon.Proc.Path
import Sockmon.Lib.Pool
import Sockmon.Dump.Layout
import Sockmon.Run.Backstage
import Sockmon.Run.Conns
import Sockmon.Lib.FirstWins
import Sockmon.Proc.FirstOwner
import Sockmon.Proc.Scan
import Sockmon.Proc.Linked
import Sockmon.Run.OwnerTable
import Sockmon.Run.Lookup
import Sockmon.Run.ExtRcv
import Sockmon.Run.Scan
import Sockmon.Run.Errors
import Sockmon.Field.CommonLine
import Sockmon.Field.Numeral
import Sockmon.Basic.InetText
import Sockmon.Field.AddrText
import Sockmon.Field.AddrLine
import Sockmon.Lib.BitPrefix
import Sockmon.Field.AddrMatch
import Sockmon.Basic.InetNtop
import Sockmon.Field.Decode
import Sockmon.Lib.StringBuffer
import Sockmon.Field.Buffer
import Sockmon.Lib.Heap
import Sockmon.Run.Install
import Sockmon.Draw.Cells
import Sockmon.Draw.Popup
import Sockmon.Lib.Layout
import Sockmon.Draw.Columns
import Sockmon.Draw.Numbers
import Sockmon.Proc.Mount
import Sockmon.Run.Mount
import Sockmon.Proc.Comm
import Sockmon.Draw.FieldRows
import Sockmon.Run.Delay
import Sockmon.Pointer.Memory
import Sockmon.Pointer.FilterMemory
import Sockmon.Run.Display
import Sockmon.Run.Strings
import Sockmon.Run.Quit
import Sockmon.Program.Ledger
import Sockmon.Program.Conversation
