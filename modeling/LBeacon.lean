import LBeacon.Budget
import LBeacon.ReceiveSafety
import LBeacon.Ownership
import LBeacon.Interleavings
import LBeacon.Refinement
import LBeacon.TempPool
import LBeacon.PoolFree
import LBeacon.Dispatch
import LBeacon.Uplink
import LBeacon.HandOff
import LBeacon.Shutdown
import LBeacon.CommUnit
import LBeacon.AdStructures
import LBeacon.Advertising
import LBeacon.Tokenizer
import LBeacon.JoinResponse
import LBeacon.Selection
import LBeacon.Decoding
import LBeacon.TimeoutCleanup
import LBeacon.Eviction
import LBeacon.Sightings
import LBeacon.Matching
import LBeacon.ScanEvent
import LBeacon.Lib.Machine
import LBeacon.LinkedList
import LBeacon.PriorityList
import LBeacon.TrimTail
import LBeacon.SendReport
import LBeacon.HealthReport
import LBeacon.AddressMap
import LBeacon.ScanPass
import LBeacon.Lib.Digits
import LBeacon.Uuid
import LBeacon.RuleLine
import LBeacon.ConfigFile
import LBeacon.Lib.Delimited
import LBeacon.RuleLists
import LBeacon.Lib.CBuffer
import LBeacon.HexCode
import LBeacon.Hyphen
import LBeacon.PoolFrame
import LBeacon.JobQueue
import LBeacon.Lib.Processes
import LBeacon.ThreadPool
import LBeacon.JobRuns
import LBeacon.Crew
import LBeacon.Wakeups
import LBeacon.Lib.Fair
import LBeacon.Progress
import LBeacon.Effort
import LBeacon.Ending
import LBeacon.Departure
import LBeacon.UdpThreads
import LBeacon.Delivery
import LBeacon.Release
import LBeacon.Joining
import LBeacon.JoinDelivery
import LBeacon.PoolRefinement
import LBeacon.Exchange
import LBeacon.Answers
