import SerialConsole.Console.Session
import SerialConsole.Main
import SerialConsole.Proofs.Arithmetic
import SerialConsole.Proofs.Console.Restart
import SerialConsole.Proofs.DataStack
import SerialConsole.Proofs.DataStack.BoundedList
import SerialConsole.Proofs.Failing
import SerialConsole.Proofs.Machine.EventLoop
import SerialConsole.Proofs.Machine.Expression
import SerialConsole.Proofs.Rom.Checksum
import SerialConsole.Proofs.Rom.Persistence
import SerialConsole.Proofs.Text
import SerialConsole.Proofs.Text.Numeral
import SerialConsole.Proofs.Token
import SerialConsole.Proofs.Machine.Operands
import SerialConsole.Proofs.Machine.Frame
import SerialConsole.Proofs.Console.Lines
import SerialConsole.Proofs.Console.Moment
import SerialConsole.Proofs.Console.Break
import SerialConsole.Proofs.Machine.Requests
import SerialConsole.Proofs.Machine.Output
import SerialConsole.Proofs.Machine.Reception
import SerialConsole.Proofs.Machine.Names
import SerialConsole.Proofs.Machine.RadioSetup
import SerialConsole.Proofs.Machine.Slots
import SerialConsole.Proofs.Memory.Layout
import SerialConsole.Proofs.Memory.Listing
import SerialConsole.Proofs.Memory.AddressMap
import SerialConsole.Proofs.Machine.Operators
import SerialConsole.Proofs.Machine.Redefinition
import SerialConsole.Proofs.Radio.PacketLine
import SerialConsole.Proofs.Text.Runs
import SerialConsole.Proofs.Machine.Limits
