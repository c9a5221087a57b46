import EvhtpHttp.Client.Budgets
import EvhtpHttp.Client.BurstLimit
import EvhtpHttp.Client.ConnectionCap
import EvhtpHttp.Client.DeadConnections
import EvhtpHttp.Client.Outcomes
import EvhtpHttp.Client.PacerRange
import EvhtpHttp.Client.RequestCap
import EvhtpHttp.Client.Shutdown
import EvhtpHttp.Client.Stranded
import EvhtpHttp.Client.Totals
import EvhtpHttp.Client.Lifetime
import EvhtpHttp.Client.OneRequest
import EvhtpHttp.Client.Intervals
import EvhtpHttp.Client.Program
import EvhtpHttp.Server.Req
import EvhtpHttp.Server.Response
import EvhtpHttp.Server.Links
import EvhtpHttp.Server.Body
import EvhtpHttp.Server.Refcount
import EvhtpHttp.Server.Hooks
import EvhtpHttp.Client.Options
import EvhtpHttp.Client.Shares
import EvhtpHttp.Server.SizeParameter
import EvhtpHttp.Client.Creation
import EvhtpHttp.Client.Attempts
import EvhtpHttp.Client.Evolution
import EvhtpHttp.Support.RoundRobin
import EvhtpHttp.Client.Destinations
import EvhtpHttp.Client.HostHeader
import EvhtpHttp.Client.Replacement
import EvhtpHttp.Client.Completion
import EvhtpHttp.Client.Exit
import EvhtpHttp.Client.Survival
import EvhtpHttp.Server.Served
import EvhtpHttp.Client.RateLimit
import EvhtpHttp.Client.RampUp
import EvhtpHttp.Client.Report
import EvhtpHttp.Server.Options
import EvhtpHttp.Client.EventCounts
import EvhtpHttp.Client.RequestUri
import EvhtpHttp.Client.Volume
import EvhtpHttp.Client.Lag
