import Montre.Library.Runs
import Montre.Library.Emit
import Montre.Firmware.Watch
import Montre.Firmware.Program
import Montre.Firmware.Events
import Montre.Firmware.Clock
import Montre.Abstract.AlarmClock
import Montre.Firmware.Refinement
import Montre.Firmware.Timekeeping
import Montre.Firmware.Alarm
import Montre.Firmware.Silence
import Montre.Firmware.Display
import Montre.Firmware.Stopwatch
import Montre.Interrupts.KeyPresses
import Montre.Interrupts.Ticks
import Montre.Hardware.AlarmBell
import Montre.Hardware.BcdCounter
import Montre.Hardware.ChronoAvalonInterface
import Montre.Firmware.ControlState
import Montre.Firmware.Leds
import Montre.Firmware.Hexs
import Montre.Firmware.Programming
import Montre.Firmware.Standing
import Montre.Hardware.Rollover
import Montre.Interrupts.KeyOrder
import Montre.Library.Buffered
import Montre.Joint.Board
import Montre.Joint.Cleared
import Montre.Joint.SoftReset
import Montre.Joint.Decoder
import Montre.Hardware.AlarmBellAvalonInterface
import Montre.Hardware.ByteEnables
import Montre.Hardware.Divider
import Montre.Hardware.NiosSystem
import Montre.Hardware.KeyWiring
import Montre.Hardware.KeyCapture
import Montre.Hardware.ResetRequest
import Montre.Joint.KeyPort
import Montre.Hardware.NiosSystemTimer
import Montre.Interrupts.Deadline
import Montre.Hal.Iic
import Montre.Hal.IrqHandler
import Montre.Hal.Startup
import Montre.Joint.Quartz
import Montre.Hal.JtagUart
import Montre.Joint.Console
import Montre.Joint.Lights
import Montre.Joint.Reading
import Montre.Joint.Ringing
import Montre.Compiled.Division
import Montre.Compiled.Display
import Montre.Compiled.Exception
import Montre.Compiled.Timekeeping
import Montre.Compiled.Main
