import Httb.AsyncSession
import Httb.BaseRequest
import Httb.BatchOperations
import Httb.BatchRuns
import Httb.BuiltUrl
import Httb.CallerView
import Httb.CapturedRequests
import Httb.Client
import Httb.ContentLength
import Httb.Context
import Httb.ContextRuns
import Httb.EmptyCallback
import Httb.Exchange
import Httb.ExecuteOperations
import Httb.FailingRedirects
import Httb.FailureReports
import Httb.FormBody
import Httb.FormPosts
import Httb.Foundation.Calls
import Httb.Foundation.Chains
import Httb.Foundation.Components
import Httb.Foundation.EraseMatch
import Httb.Foundation.HashTable
import Httb.Foundation.HeaderLines
import Httb.Foundation.Loading
import Httb.Foundation.Multimap
import Httb.Foundation.OrderedMap
import Httb.Foundation.Regex
import Httb.Foundation.Runs
import Httb.Foundation.Simulation
import Httb.Foundation.Splitting
import Httb.Foundation.Traced
import Httb.Foundation.WordSplit
import Httb.HeaderLoading
import Httb.HeaderMap
import Httb.HeaderOverloads
import Httb.IcaseTable
import Httb.IoContainer
import Httb.LiveContext
import Httb.MockClient
import Httb.MockSubstitute
import Httb.Multipart
import Httb.MultipartParts
import Httb.MultipartRequest
import Httb.OriginForm
import Httb.OutOfWork
import Httb.PortNumber
import Httb.Progress
import Httb.QueryArrival
import Httb.QueryMultimap
import Httb.QueryRuns
import Httb.QueryString
import Httb.ReceivedHeaders
import Httb.RedirectLimit
import Httb.RedirectTrail
import Httb.Redirects
import Httb.RelativeRedirect
import Httb.RemoveHeader
import Httb.RequestBody
import Httb.RequestComponents
import Httb.RequestLine
import Httb.RequestPath
import Httb.Response
import Httb.ResponseBody
import Httb.RootCerts
import Httb.SessionOutcome
import Httb.SessionTimers
import Httb.TimedSession
import Httb.TransportErrors
import Httb.Types
import Httb.Upload
import Httb.Url
import Httb.UrlComponents
import Httb.UrlNormalForm
import Httb.UrlResidue
import Httb.UrlRoundTrip
import Httb.Wire
import Httb.WireHeaders
