import EventTalks.Foundation.SlotTable
import EventTalks.Foundation.KeyedTable
import EventTalks.Foundation.Run
import EventTalks.Foundation.Fallible
import EventTalks.Foundation.Replica
import EventTalks.Foundation.IndexedEdits
import EventTalks.Foundation.Json
import EventTalks.Foundation.Calendar
import EventTalks.Foundation.Positions
import EventTalks.Foundation.Scripts
import EventTalks.Realm.ChunkedSet
import EventTalks.Realm.WriteTransaction
import EventTalks.Realm.Recording
import EventTalks.Realm.Coordinator
import EventTalks.Realm.Versions
import EventTalks.Network.Router
import EventTalks.Network.Request
import EventTalks.Services.FetchAll
import EventTalks.Services.Create
import EventTalks.Services.Writes
import EventTalks.Listing.Screen
import EventTalks.Listing.Shown
import EventTalks.Listing.Safety
import EventTalks.Listing.Balance
import EventTalks.Detail.Screen
import EventTalks.Detail.Removal
import EventTalks.Detail.Acknowledgement
import EventTalks.Detail.Reading
import EventTalks.Detail.Requests
import EventTalks.Detail.Table
import EventTalks.Detail.Shape
import EventTalks.Detail.DateSection
import EventTalks.Detail.Redraw
import EventTalks.Detail.Foreign
import EventTalks.Server.TalksController
import EventTalks.Server.Outcome
import EventTalks.Integration.TalkTrip
import EventTalks.Integration.Routing
import EventTalks.Integration.Agreement
import EventTalks.Integration.Success
import EventTalks.Integration.LiveListing
import EventTalks.Integration.Device
import EventTalks.Integration.Convergence
