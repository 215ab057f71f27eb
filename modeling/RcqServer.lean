import RcqServer.AudioRooms
import RcqServer.Connections.Online
import RcqServer.Connections.Registered
import RcqServer.DepositAuth.Blind
import RcqServer.DepositAuth.SingleUse
import RcqServer.Gate.Redeems
import RcqServer.Gate.Revoked
import RcqServer.GuestCards
import RcqServer.Guests.Marked
import RcqServer.Guests.OneRow
import RcqServer.Guests.Unproven
import RcqServer.Holders.Former
import RcqServer.MediaSweeps
import RcqServer.Numbers.Holds
import RcqServer.Numbers.Listings
import RcqServer.Numbers.Quotes
import RcqServer.Numbers.Residency
import RcqServer.Numbers.Scarce
import RcqServer.Numbers.TwoDoors
import RcqServer.Prekeys.HandedOnce
import RcqServer.Profiles.Moved
import RcqServer.PushHealth
import RcqServer.Queue.Dormant
import RcqServer.Queue.Marks
import RcqServer.RateLimit.Exact
import RcqServer.RateLimit.Retry
import RcqServer.Reuse.Strangers
import RcqServer.RoomLog.Fair
import RcqServer.RoomLog.MaxMin
import RcqServer.RoomLog.Seqs
import RcqServer.Sessions.Bumps
import RcqServer.Sessions.Listed
import RcqServer.Sessions.Reissues
import RcqServer.Sites
import RcqServer.Slowmode.Slots
import RcqServer.Sweeps.Dead
import RcqServer.Vault.Cap
import RcqServer.Vault.Versions
