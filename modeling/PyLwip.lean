import PyLwip.Common.Run
import PyLwip.Common.Heapq
import PyLwip.Scheduler.Fifo
import PyLwip.Scheduler.WakeUp
import PyLwip.Scheduler.TimedQueue
import PyLwip.Scheduler.AllOrNothing
import PyLwip.Scheduler.StopCancelled
import PyLwip.Scheduler.LockedStop
import PyLwip.Stack.Errors
import PyLwip.Stack.NetIf
import PyLwip.Stack.PingClient
import PyLwip.Emulation.Starvation
import PyLwip.Emulation.AddHost
import PyLwip.Emulation.Status
import PyLwip.Emulation.Bus
import PyLwip.Emulation.SetUp
import PyLwip.Emulation.Channel
import PyLwip.Output.EthernetRecorder
import PyLwip.Examples.PingPong
