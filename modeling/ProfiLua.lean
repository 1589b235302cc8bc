import ProfiLua.Bit.Digits
import ProfiLua.Chunk.Control
import ProfiLua.Dll.Bounds
import ProfiLua.Dll.Console
import ProfiLua.Dll.Discipline
import ProfiLua.Dll.Elements
import ProfiLua.Dll.ErrorPin
import ProfiLua.Dll.Exchange
import ProfiLua.Dll.Independence
import ProfiLua.Dll.Latch
import ProfiLua.Dll.Lifecycle
import ProfiLua.Dll.Names
import ProfiLua.Dll.Persistence
import ProfiLua.Library.Convention
import ProfiLua.Library.Sort
import ProfiLua.Midi.DeviceNumber
import ProfiLua.Midi.Registry
import ProfiLua.Midi.RoundTrip
import ProfiLua.Serial.Transmission
import ProfiLua.Table.Refinement
