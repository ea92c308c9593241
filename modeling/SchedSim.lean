import SchedSim.Lists
import SchedSim.State
import SchedSim.Resource
import SchedSim.Schedule
import SchedSim.PrioSchedule
import SchedSim.Driver
import SchedSim.Partition
import SchedSim.HighestFirst
import SchedSim.Protocols
import SchedSim.Aging
import SchedSim.Selection
import SchedSim.Rotation
import SchedSim.WakeOrder
import SchedSim.ReadyOrder
import SchedSim.Blocking
import SchedSim.Exclusion
