import QuakeJs.Data.Table
import QuakeJs.Data.Fallible
import QuakeJs.Ledger.Rows
import QuakeJs.Ledger.Transaction
import QuakeJs.Ledger.Leaving
import QuakeJs.Ledger.Crud
import QuakeJs.Ledger.Lobby
import QuakeJs.Ledger.Leases
import QuakeJs.Ledger.Payouts
import QuakeJs.Ledger.Effects
import QuakeJs.Ledger.Run
import QuakeJs.Ledger.Arenas
import QuakeJs.Ledger.Fencing
import QuakeJs.Ledger.Turns
import QuakeJs.Ledger.Queue
import QuakeJs.Ledger.Solvency
import QuakeJs.Ledger.Victims
import QuakeJs.Ledger.Retirement
import QuakeJs.Ledger.Listing
import QuakeJs.Ledger.Binding
import QuakeJs.Ledger.Display
import QuakeJs.Ledger.Lives
import QuakeJs.Ledger.Shown
import QuakeJs.Ledger.Privacy
import QuakeJs.Ledger.Promises
import QuakeJs.Ledger.Respawns
import QuakeJs.Ledger.Terms
import QuakeJs.Ledger.Sessions
import QuakeJs.Ledger.Closure
import QuakeJs.Entries.Creation
import QuakeJs.Entries.Reservations
import QuakeJs.Entries.Closure
import QuakeJs.Engine.Native
import QuakeJs.Engine.Admission
import QuakeJs.Async.Task
import QuakeJs.Payments.Worker
import QuakeJs.Payments.Sending
import QuakeJs.Payments.Once
import QuakeJs.Payments.Bookkeeping
import QuakeJs.Payments.Outbox
import QuakeJs.Server.Journal
import QuakeJs.Server.World
import QuakeJs.Server.Match
import QuakeJs.Server.Manager
import QuakeJs.Server.System
import QuakeJs.Upgrade.Sql
import QuakeJs.Upgrade.Schema
import QuakeJs.Upgrade.Migrations
import QuakeJs.Upgrade.Stages
import QuakeJs.Upgrade.Resume
import QuakeJs.Bsp.Struct
import QuakeJs.Bsp.LogoMaps
import QuakeJs.Bsp.Container
import QuakeJs.Bsp.Branding
import QuakeJs.Views.Limit
import QuakeJs.Data.Keyset
import QuakeJs.Async.Trace
import QuakeJs.Workers.Sweeps
import QuakeJs.Payments.Winnings
import QuakeJs.Payments.Turns
import QuakeJs.Engine.Control
import QuakeJs.Server.Channel
import QuakeJs.Games.Limits
import QuakeJs.Engine.Spending
import QuakeJs.Ledger.Runs
import QuakeJs.Server.Books
import QuakeJs.Server.Commits
import QuakeJs.Server.Rules
import QuakeJs.Server.Seats
import QuakeJs.Server.Engines
import QuakeJs.Server.Custody
import QuakeJs.Server.Links
import QuakeJs.Server.Owed
import QuakeJs.Server.Guards
import QuakeJs.Server.Steps
import QuakeJs.Server.Calls
import QuakeJs.Server.Drains
import QuakeJs.Server.Stops
import QuakeJs.Server.Attendance
import QuakeJs.Server.Arenas
import QuakeJs.Server.Serving
import QuakeJs.Server.Ensures
import QuakeJs.Server.Leaves
import QuakeJs.Server.Requests
import QuakeJs.Server.Whole
