import GpsBase.Rtcm.Damage
import GpsBase.Mailbox.Run
import GpsBase.Push.PushWire
import GpsBase.Push.LocalCaster
import GpsBase.Push.CasterWire
import GpsBase.Push.WholeFrames
import GpsBase.Push.StalePackets
import GpsBase.Mailbox.Reconnect
import GpsBase.Control.Modes
import GpsBase.Control.Gating
import GpsBase.Control.RateGate
import GpsBase.Lib.KeyValue
import GpsBase.Settings.Records
import GpsBase.Settings.Saves
import GpsBase.Lib.Binary64
import GpsBase.Lib.Lines
import GpsBase.Rinex.SatId
import GpsBase.Rinex.Logger
import GpsBase.Rinex.Header
import GpsBase.Rinex.Epochs
import GpsBase.Rinex.Parts
import GpsBase.Rinex.Sessions
import GpsBase.Lib.Reads
import GpsBase.Web.Export
import GpsBase.Web.ExportExact
import GpsBase.Web.MergeValid
import GpsBase.Lib.Calendar
import GpsBase.Rinex.Times
import GpsBase.Web.FileTimes
import GpsBase.Rinex.Patching
import GpsBase.Rinex.Grid
import GpsBase.Rinex.Hourly
import GpsBase.Storage.Card
import GpsBase.Storage.SdManager
import GpsBase.Storage.Removal
import GpsBase.Storage.DeleteGuard
import GpsBase.Storage.ActiveFile
import GpsBase.Control.Um980
import GpsBase.Control.Agreement
import GpsBase.Control.OldFrames
import GpsBase.Lib.Welford
import GpsBase.Survey.Manager
import GpsBase.Control.SurveyEnds
import GpsBase.Mailbox.Burst
import GpsBase.Push.LocalBatch
import GpsBase.Push.QueueAccounting
import GpsBase.Lib.Retries
import GpsBase.Push.BackOff
import GpsBase.Rinex.Spans
import GpsBase.Web.Selection
import GpsBase.Settings.Antenna
import GpsBase.Control.RinexIntent
import GpsBase.Storage.DeleteJobs
import GpsBase.Storage.BatchDelete
import GpsBase.Web.Admin
import GpsBase.Wifi.Fallback
import GpsBase.Web.Session
import GpsBase.Lib.Throttle
import GpsBase.Web.Throttle
import GpsBase.Lib.Handles
import GpsBase.Push.ClientSockets
import GpsBase.Lib.Preference
import GpsBase.Rinex.Observed
import GpsBase.Rinex.Recovery
import GpsBase.Rinex.Duplicates
import GpsBase.Web.Fields
import GpsBase.Web.Months
import GpsBase.Web.Redirects
import GpsBase.Web.Upload
import GpsBase.Web.UploadStreams
import GpsBase.Console.Log
import GpsBase.Lib.Json
import GpsBase.Web.PathLists
import GpsBase.Storage.Preview
import GpsBase.Storage.Listing
import GpsBase.Survey.LineFeed
import GpsBase.Survey.Satellites
import GpsBase.Survey.Cycles
import GpsBase.Lib.Strtod
import GpsBase.Web.Positions
import GpsBase.Wifi.Credentials
import GpsBase.Lib.Fuel
import GpsBase.Push.Handshake
import GpsBase.Push.Admission
import GpsBase.Web.NextPage
import GpsBase.Lib.Base64
import GpsBase.Lib.Crlf
import GpsBase.Push.CasterLogin
import GpsBase.Web.ServiceForms
import GpsBase.Rtcm.Decoding
import GpsBase.Flow.Pipeline
import GpsBase.Flow.Delivery
import GpsBase.Flow.PushDelivery
import GpsBase.Flow.Turn
import GpsBase.Survey.Records
import GpsBase.Web.LogPage
import GpsBase.Touch.FileBrowser
import GpsBase.Lib.Html
import GpsBase.Web.ConfigPage
