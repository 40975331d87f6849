import W2.Transition
import W2.Mips.Isa
import W2.Mips.Memory
import W2.Mips.Machine
import W2.Mips.Exec
import W2.Mips.Breakpoint
import W2.Mips.Bus
import W2.Mips.Service
import W2.Mips.Exception
import W2.Firmware.Image
import W2.Firmware.Uart
import W2.Console.Reader
import W2.Console.Commands
import W2.Console.Language
import W2.Firmware.Getword
import W2.Firmware.Print
import W2.Firmware.Write
import W2.Firmware.Read
import W2.Firmware.Output
import W2.Firmware.Dispatch
import W2.Firmware.Bench
import W2.Firmware.Refinement
import W2.Host.Text
import W2.Host.Requests
import W2.Host.SerialPort
import W2.Host.Upload
import W2.Host.Uploader
import W2.Link.Decoding
import W2.Link.Device
import W2.Link.StopAndWait
import W2.Link.AckFlag
import W2.Link.AckBatch
import W2.Host.Chunks
import W2.Host.Buffer
import W2.Host.PartialWrites
import W2.Host.Rejection
import W2.Host.Registration
import W2.Firmware.Editing
import W2.Firmware.Scattered
import W2.Firmware.Receive
import W2.Firmware.Menu
import W2.Firmware.Boot
import W2.Firmware.BinaryWrite
import W2.Firmware.Wrapper
import W2.Firmware.Dump
import W2.Firmware.Tracing
import W2.Firmware.Dmi
import W2.Firmware.I2c
import W2.Firmware.Slaves
import W2.Host.Lifecycle
import W2.Link.Jump
import W2.Schedules
import W2.Link.Completion
import W2.Firmware.Waiting
import W2.Firmware.Register
import W2.Link.Acknowledged
import W2.Firmware.Restore
import W2.Link.Call
import W2.Console.Menu
import W2.Firmware.MenuRun
import W2.Firmware.Startup
import W2.Firmware.Session
import W2.Firmware.RemoteMemory
import W2.Link.ClosedLoop
import W2.Link.LoopEnds
