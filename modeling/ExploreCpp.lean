import ExploreCpp.Task.Ownership
import ExploreCpp.Task.Preservation
import ExploreCpp.Task.Law
import ExploreCpp.Server.Pool
import ExploreCpp.Server.Program
import ExploreCpp.Server.Session
import ExploreCpp.Server.Talk
import ExploreCpp.Server.Serving
import ExploreCpp.Server.Turn
import ExploreCpp.Server.Traffic
import ExploreCpp.Server.Service
import ExploreCpp.Server.Settled
import ExploreCpp.Server.Affinity
import ExploreCpp.Server.Acceptor
import ExploreCpp.Print.Printer
import ExploreCpp.Print.Unique
import ExploreCpp.Backward
import ExploreCpp.Log.Timestamp
import ExploreCpp.Log.Cache
import ExploreCpp.Flight.Service
import ExploreCpp.Flight.Upload
import ExploreCpp.Flight.Rows
import ExploreCpp.Flight.Handles
import ExploreCpp.Limits.ResourceLimit
import ExploreCpp.Rotation
import ExploreCpp.Server.Placement
import ExploreCpp.FixedWidth
import ExploreCpp.Log.Layout
import ExploreCpp.Overload
import ExploreCpp.Task.Optional
import ExploreCpp.Task.Promise
import ExploreCpp.Task.Direct
import ExploreCpp.Task.Meaning
import ExploreCpp.Flight.Actions
import ExploreCpp.Flight.Catalogue
import ExploreCpp.Flight.Histories
import ExploreCpp.Log.Console
import ExploreCpp.Log.Lines
import ExploreCpp.Cookbook.Recipes
import ExploreCpp.Cookbook.Books
import ExploreCpp.Cookbook.Sections
import ExploreCpp.Cookbook.TestData
import ExploreCpp.Server.Lifetime
import ExploreCpp.Rang.Control
import ExploreCpp.Rang.Native
import ExploreCpp.Callbacks
import ExploreCpp.Daytime.Server
import ExploreCpp.Daytime.Connections
import ExploreCpp.Daytime.Datagrams
import ExploreCpp.Conversation
import ExploreCpp.Echo.Loops
import ExploreCpp.Print.Output
import ExploreCpp.Task.Returns
