import SlmOs.Pmm.Region
import SlmOs.Sched.Termination
import SlmOs.Sched.Isolation
import SlmOs.Ipc.Wakeups
import SlmOs.Ipc.Inheritance
import SlmOs.Vmm.Unwind
import SlmOs.Kbuf.Window
import SlmOs.Router.Delivery
import SlmOs.Router.Acknowledge
import SlmOs.Router.Consistency
import SlmOs.Slm.Binding
import SlmOs.Slm.Stop
import SlmOs.Batch.Results
import SlmOs.Loader.Versions
import SlmOs.Onnx.Termination
import SlmOs.Onnx.Faithful
import SlmOs.Onnx.Weights
import SlmOs.Pmm.Completeness
import SlmOs.SchedModel.Readers
import SlmOs.Fdt.Boot
import SlmOs.Telnet.Input
import SlmOs.Telnet.Output
import SlmOs.Telnet.Negotiation
import SlmOs.Sched.Deadlines
import SlmOs.Sched.StealDeque
import SlmOs.Ipc.Receivers
import SlmOs.Ipc.SharedCounts
import SlmOs.Pmm.Confluence
import SlmOs.Sched.Sleep
import SlmOs.Sched.TaskTable
import SlmOs.Sched.TopTasks
import SlmOs.Slm.Gguf
import SlmOs.Slm.Merges
import SlmOs.Slm.Decode
import SlmOs.Inference.QuantDot
import SlmOs.Inference.QuantSizes
