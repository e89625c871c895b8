import Mpmt.Agent.Deadlock
import Mpmt.Bloom.GenBf
import Mpmt.Bloom.Param
import Mpmt.Dpf.SharedWords
import Mpmt.Manager.Deadlock
import Mpmt.Manager.Halting
import Mpmt.Manager.Moves
import Mpmt.Manager.Preconditions
import Mpmt.Manager.Tokens
import Mpmt.Query.Alignment
import Mpmt.Query.HashAgreement
import Mpmt.Query.IndexPrivacy
import Mpmt.Rep3.CrngStream
import Mpmt.Rep3.Program
import Mpmt.Rep3.RingConv
import Mpmt.Rep3.ShareBf
import Mpmt.Rvector.File
import Mpmt.Rvector.Refines
import Mpmt.TreeCache.CrashAtomic
import Mpmt.TreeCache.Lockstep
import Mpmt.TreeCache.MetaTrip
import Mpmt.TreeCache.Publish
