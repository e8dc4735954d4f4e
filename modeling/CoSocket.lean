import CoSocket.Net.Expiry
import CoSocket.Net.Drains
import CoSocket.Net.Lifetimes
import CoSocket.Net.TcpServer
import CoSocket.Net.CoQueue
import CoSocket.Net.Closing
import CoSocket.Net.Transfers
import CoSocket.Http.EncodedFrames
import CoSocket.Http.Answers
import CoSocket.Http.Pipeline
import CoSocket.Http.Head
import CoSocket.Http.Query
import CoSocket.Http.HttpClient
import CoSocket.Http.HeaderCase
import CoSocket.Http.ParserCalls
import CoSocket.Third.Limits
import CoSocket.Third.Closed
import CoSocket.Third.Library
import CoSocket.Third.Schedule
