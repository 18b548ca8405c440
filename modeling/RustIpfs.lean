import RustIpfs.Repo.Key
import RustIpfs.Repo.Kv
import RustIpfs.Repo.Table
import RustIpfs.Repo.Simulation
import RustIpfs.Repo.Runs
import RustIpfs.Repo.Refinement
import RustIpfs.Repo.Invariants
import RustIpfs.Repo.Commute
import RustIpfs.Repo.Listing
import RustIpfs.Repo.Query
import RustIpfs.Repo.History
import RustIpfs.Bitswap.Ledger
import RustIpfs.Bitswap.Behaviour
import RustIpfs.Bitswap.Handler
import RustIpfs.Bitswap.World
import RustIpfs.Bitswap.Wants
import RustIpfs.Bitswap.Counters
import RustIpfs.Bitswap.Delivery
import RustIpfs.Bitswap.Reports
import RustIpfs.Bitswap.Messages
import RustIpfs.Bitswap.Poll
import RustIpfs.Unixfs.Get
import RustIpfs.Unixfs.Status
import RustIpfs.Unixfs.Complete
